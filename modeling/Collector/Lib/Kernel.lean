import Mathlib.Logic.Relation
import Mathlib.Data.Finset.Card
import Mathlib.Data.Finset.Filter
import Mathlib.Tactic.Common

/-!
Cancellation on a graph without cycles: a node is cancelled exactly when a node that is not
cancelled itself points at it. Computing the cancelled nodes from the previous guess is not
monotone, yet every node is settled after as many passes as there are nodes above it, and there
is only one solution.
-/

namespace Collector.Lib
open Relation

/-- The cancelled nodes are exactly those a standing node points at. -/
def Settled {α : Type} (cancels : α → α → Prop) (cancelled : Set α) : Prop :=
  ∀ x, x ∈ cancelled ↔ ∃ y, cancels y x ∧ y ∉ cancelled

/-- The guess after a number of passes, from the empty one. -/
def passes {α : Type} (cancels : α → α → Prop) : Nat → Set α
  | 0 => ∅
  | n + 1 => { x | ∃ y, cancels y x ∧ y ∉ passes cancels n }

open Classical in
/-- The number of nodes from which `x` can be reached. -/
noncomputable def depth {α : Type} (cancels : α → α → Prop) (nodes : Finset α) (x : α) : Nat :=
  (nodes.filter fun y => TransGen cancels y x).card

variable {α : Type} {cancels : α → α → Prop} {nodes : Finset α}

theorem depth_le_card (x : α) : depth cancels nodes x ≤ nodes.card := by
  classical
  exact Finset.card_filter_le _ _

theorem depth_lt (known : ∀ y x, cancels y x → y ∈ nodes) (acyclic : ∀ x, ¬ TransGen cancels x x)
    {x y : α} (edge : cancels y x) : depth cancels nodes y < depth cancels nodes x := by
  classical
  apply Finset.card_lt_card
  rw [Finset.ssubset_iff_of_subset]
  · refine ⟨y, ?_, ?_⟩
    · simp [known y x edge, TransGen.single edge]
    · simp [acyclic y]
  · intro z above
    rw [Finset.mem_filter] at above ⊢
    exact ⟨above.1, above.2.tail edge⟩

/-- Whether a node is cancelled depends on the nodes that point at it only. -/
theorem cancelled_congr {S T : Set α} {x : α} (agree : ∀ y, cancels y x → (y ∈ S ↔ y ∈ T)) :
    (∃ y, cancels y x ∧ y ∉ S) ↔ ∃ y, cancels y x ∧ y ∉ T := by
  apply exists_congr
  intro y
  apply and_congr_right
  intro edge
  rw [not_iff_not]
  exact agree y edge

/-- A node keeps its state from the pass on that its depth names. -/
theorem passes_stable (known : ∀ y x, cancels y x → y ∈ nodes)
    (acyclic : ∀ x, ¬ TransGen cancels x x) {n : Nat} {x : α} (deep : depth cancels nodes x ≤ n) :
    x ∈ passes cancels (n + 1) ↔ x ∈ passes cancels n := by
  induction n generalizing x with
  | zero =>
    have top : ¬ ∃ y, cancels y x ∧ y ∉ passes cancels 0 := by
      rintro ⟨y, edge, _⟩
      have := depth_lt known acyclic edge
      omega
    simpa [passes] using top
  | succ n ih =>
    apply cancelled_congr
    intro y edge
    have above := depth_lt known acyclic edge
    exact ih (by omega)

/-- With as many passes as there are nodes, nothing changes any more. -/
theorem passes_card (known : ∀ y x, cancels y x → y ∈ nodes)
    (acyclic : ∀ x, ¬ TransGen cancels x x) :
    passes cancels (nodes.card + 1) = passes cancels nodes.card :=
  Set.ext fun x => passes_stable known acyclic (depth_le_card x)

/-- Two solutions agree on every node, by induction on its depth. -/
theorem Settled.unique (known : ∀ y x, cancels y x → y ∈ nodes)
    (acyclic : ∀ x, ¬ TransGen cancels x x) {S T : Set α} (first : Settled cancels S)
    (second : Settled cancels T) : S = T := by
  suffices agree : ∀ n x, depth cancels nodes x = n → (x ∈ S ↔ x ∈ T) from
    Set.ext fun x => agree _ x rfl
  intro n
  induction n using Nat.strong_induction_on with
  | _ n ih =>
    intro x deep
    rw [first x, second x]
    apply cancelled_congr
    intro y edge
    exact ih _ (deep ▸ depth_lt known acyclic edge) y rfl

end Collector.Lib
