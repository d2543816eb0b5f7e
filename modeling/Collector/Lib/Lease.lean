import Mathlib.Algebra.Order.Ring.Int
import Mathlib.Tactic.Common

/-!
A work item under leases, seen through the acts performed on it. The only token of a lease is
its owner's name. The rules below are about every path of acts from a fresh item: how claims
and refunds account for the attempt counter, who holds the item, and what a lease excludes.
-/

namespace Collector.Lib.Lease

inductive Hold (Owner Time : Type) where
  | free
  | held (owner : Owner) (expires : Time)
  | closed

/-- `limit` is the number of attempts after which a retry closes the item. -/
structure Cell (Owner Time : Type) where
  hold : Hold Owner Time
  attempt : Int
  limit : Int

inductive Act (Owner Time : Type) where
  | claim (owner : Owner) (expires : Time)
  | extend (owner : Owner) (expires : Time)
  | retry (owner : Owner)
  | refund (owner : Owner)
  | finish (owner : Owner)
  | expire (now : Time)
  | revoke

variable {Owner Time : Type}

/-- The owner on whose behalf an act is made; expiry and revocation have none. -/
def Act.actor : Act Owner Time → Option Owner
  | .claim owner _ | .extend owner _ | .retry owner | .refund owner | .finish owner => some owner
  | .expire _ | .revoke => none

def Act.claimer : Act Owner Time → Option Owner
  | .claim owner _ => some owner
  | _ => none

/-- The owner of an act that needs the lease, which a claim does not. -/
def Act.reporter : Act Owner Time → Option Owner
  | .extend owner _ | .retry owner | .refund owner | .finish owner => some owner
  | _ => none

def Act.isRefund : Act Owner Time → Bool
  | .refund _ => true
  | _ => false

inductive Step [LE Time] : Cell Owner Time → Act Owner Time → Cell Owner Time → Prop where
  | claim {n limit : Int} (owner : Owner) (expires : Time) :
      Step ⟨.free, n, limit⟩ (.claim owner expires) ⟨.held owner expires, n + 1, limit⟩
  | extend {n limit : Int} {owner : Owner} {expires : Time} (later : Time) :
      Step ⟨.held owner expires, n, limit⟩ (.extend owner later) ⟨.held owner later, n, limit⟩
  | retry {n limit : Int} {owner : Owner} {expires : Time} (budget : n < limit) :
      Step ⟨.held owner expires, n, limit⟩ (.retry owner) ⟨.free, n, limit⟩
  | refund {n limit : Int} {owner : Owner} {expires : Time} :
      Step ⟨.held owner expires, n, limit⟩ (.refund owner) ⟨.free, max (n - 1) 0, limit⟩
  | finish {n limit : Int} {owner : Owner} {expires : Time} :
      Step ⟨.held owner expires, n, limit⟩ (.finish owner) ⟨.closed, n, limit⟩
  | expire {n limit : Int} {owner : Owner} {expires now : Time} (ended : expires ≤ now) :
      Step ⟨.held owner expires, n, limit⟩ (.expire now) ⟨.free, n, limit⟩
  | revoke {hold : Hold Owner Time} {n limit : Int} :
      Step ⟨hold, n, limit⟩ .revoke ⟨.closed, n, limit⟩

/-- Paths from an item nobody has claimed yet, newest act first. -/
inductive Path [LE Time] (limit : Int) : List (Act Owner Time) → Cell Owner Time → Prop where
  | fresh : Path limit [] ⟨.free, 0, limit⟩
  | act {acts : List (Act Owner Time)} {act : Act Owner Time} {cell next : Cell Owner Time} :
      Path limit acts cell → Step cell act next → Path limit (act :: acts) next

/-- A closed item stays as it is, whatever is tried. -/
theorem Step.closed [LE Time] {act : Act Owner Time} {next : Cell Owner Time} {n limit : Int}
    (step : Step ⟨.closed, n, limit⟩ act next) : next = ⟨.closed, n, limit⟩ := by
  cases step
  rfl

/-- An act on behalf of an owner finds the item free, to claim it, or held by that owner. -/
theorem Step.actor_holds [LE Time] {act : Act Owner Time} {cell next : Cell Owner Time}
    {owner : Owner} (step : Step cell act next) (acts : act.actor = some owner) :
    cell.hold = .free ∨ ∃ expires, cell.hold = .held owner expires := by
  cases step with
  | claim => exact .inl rfl
  | extend | retry | refund | finish =>
    cases acts
    exact .inr ⟨_, rfl⟩
  | expire | revoke => cases acts

/-- A report, unlike a claim, finds the item held by the reporter. -/
theorem Step.reporter_holds [LE Time] {act : Act Owner Time} {cell next : Cell Owner Time}
    {owner : Owner} (step : Step cell act next) (reports : act.reporter = some owner) :
    ∃ expires, cell.hold = .held owner expires := by
  cases step with
  | extend | retry | refund | finish =>
    cases reports
    exact ⟨_, rfl⟩
  | claim | expire | revoke => cases reports

section Accounting
variable [LE Time]

def claims (acts : List (Act Owner Time)) : Nat := acts.countP fun act => act.claimer.isSome

def refunds (acts : List (Act Owner Time)) : Nat := acts.countP Act.isRefund

/-- Claims that were not refunded, which is what the attempt counter says. -/
theorem Path.accounting {limit : Int} {acts : List (Act Owner Time)} {cell : Cell Owner Time}
    (path : Path limit acts cell) :
    cell.limit = limit ∧ cell.attempt = (claims acts : Int) - refunds acts ∧ 0 ≤ cell.attempt ∧
      ∀ owner expires, cell.hold = .held owner expires → 1 ≤ cell.attempt := by
  induction path with
  | fresh => simp [claims, refunds]
  | act before step ih =>
    obtain ⟨same, count, nonneg, holding⟩ := ih
    simp only [claims, refunds, List.countP_cons] at count ⊢
    cases step with
    | claim owner expires =>
      dsimp only [Act.claimer, Act.isRefund, Option.isSome] at count nonneg ⊢
      exact ⟨same, by push_cast; simp; omega, by omega, fun _ _ _ => by omega⟩
    | extend later =>
      exact ⟨same, by simpa [Act.claimer, Act.isRefund] using count, nonneg,
        fun _ _ _ => holding _ _ rfl⟩
    | refund =>
      have positive := holding _ _ rfl
      dsimp only [Act.claimer, Act.isRefund, Option.isSome] at count nonneg positive ⊢
      rw [max_eq_left (by omega)]
      exact ⟨same, by push_cast; simp; omega, by omega, by simp⟩
    | retry _ | finish | expire _ | revoke =>
      exact ⟨same, by simpa [Act.claimer, Act.isRefund] using count, nonneg, by simp⟩

/-- Attempts within the limit, with one to spare while nobody works on the item. -/
def Cell.Budget (cell : Cell Owner Time) : Prop :=
  cell.attempt ≤ cell.limit ∧ (cell.hold = .free → cell.attempt < cell.limit)

/-- Only an expiry can break the budget, and only on the last attempt. -/
theorem Step.budget {act : Act Owner Time} {cell next : Cell Owner Time} (step : Step cell act next)
    (within : cell.Budget) (nonneg : 0 < cell.limit)
    (expiry : ∀ now, act = .expire now → cell.attempt < cell.limit) : next.Budget := by
  obtain ⟨bound, spare⟩ := within
  cases step with
  | claim owner expires =>
    have room := spare rfl
    exact ⟨by dsimp only at room ⊢; omega, by simp⟩
  | extend later => exact ⟨bound, by simp⟩
  | retry budget => exact ⟨bound, fun _ => budget⟩
  | refund =>
    refine ⟨?_, fun _ => ?_⟩ <;> dsimp only at bound nonneg ⊢ <;> omega
  | finish | revoke => exact ⟨bound, by simp⟩
  | expire ended => exact ⟨bound, fun _ => expiry _ rfl⟩

end Accounting

section Holder
variable [LE Time]

/-- Whoever holds the item made the newest claim. -/
theorem Path.holder_claimed {limit : Int} {acts : List (Act Owner Time)} {cell : Cell Owner Time}
    (path : Path limit acts cell) {owner : Owner} {expires : Time}
    (holding : cell.hold = .held owner expires) :
    (acts.filterMap Act.claimer).head? = some owner := by
  induction path generalizing expires with
  | fresh => cases holding
  | act before step ih =>
    cases step with
    | claim claimant deadline =>
      cases holding
      rfl
    | extend later =>
      cases holding
      exact ih rfl
    | retry | refund | finish | expire | revoke => cases holding

end Holder

section Exclusion
variable [DecidableEq Owner]

/-- The lease an owner last set and has neither given up nor been relieved of by a revocation. -/
def lease (owner : Owner) : List (Act Owner Time) → Option Time
  | [] => none
  | .claim actor expires :: rest | .extend actor expires :: rest =>
    if actor = owner then some expires else lease owner rest
  | .retry actor :: rest | .refund actor :: rest | .finish actor :: rest =>
    if actor = owner then none else lease owner rest
  | .expire _ :: rest => lease owner rest
  | .revoke :: _ => none

/-- Until it expires, a lease that its owner keeps is the state of the item. -/
theorem Path.lease_holds [Preorder Time] {limit : Int} {acts : List (Act Owner Time)}
    {cell : Cell Owner Time} (path : Path limit acts cell) {owner : Owner} {expires now : Time}
    (clock : ∀ past, Act.expire past ∈ acts → past ≤ now)
    (kept : lease owner acts = some expires) (live : now < expires) :
    cell.hold = .held owner expires := by
  induction path with
  | fresh => cases kept
  | act before step ih =>
    have earlier := fun past member => clock past (List.mem_cons_of_mem _ member)
    cases step with
    | claim claimant deadline =>
      by_cases same : claimant = owner
      · simp only [lease, if_pos same, Option.some.injEq] at kept
        rw [same, kept]
      · simp only [lease, if_neg same] at kept
        cases ih earlier kept
    | @extend _ _ holder _ later =>
      by_cases same : holder = owner
      · simp only [lease, if_pos same, Option.some.injEq] at kept
        rw [same, kept]
      · simp only [lease, if_neg same] at kept
        cases ih earlier kept
        exact absurd rfl same
    | @retry _ _ holder | @refund _ _ holder | @finish _ _ holder =>
      by_cases same : holder = owner
      · simp only [lease, if_pos same] at kept
        cases kept
      · simp only [lease, if_neg same] at kept
        cases ih earlier kept
        exact absurd rfl same
    | expire ended =>
      cases ih earlier kept
      have late := clock _ (List.mem_cons_self ..)
      exact absurd live (not_lt_of_ge (ended.trans late))
    | revoke => cases kept

/-- **Exclusion.** Nobody else acts on the item before a kept lease expires. -/
theorem Path.exclusive [LinearOrder Time] {limit : Int} {acts : List (Act Owner Time)}
    {cell next : Cell Owner Time} (path : Path limit acts cell) {owner other : Owner}
    {expires now : Time} {act : Act Owner Time}
    (clock : ∀ past, Act.expire past ∈ acts → past ≤ now)
    (kept : lease owner acts = some expires) (step : Step cell act next)
    (actor : act.actor = some other) (distinct : other ≠ owner) : expires ≤ now := by
  by_contra live
  have holding := path.lease_holds clock kept (not_le.mp live)
  rcases step.actor_holds actor with free | ⟨deadline, held⟩
  · rw [holding] at free
    cases free
  · rw [holding] at held
    cases held
    exact distinct rfl

end Exclusion
end Collector.Lib.Lease
