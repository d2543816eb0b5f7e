import Mathlib.Data.Set.Defs
import Mathlib.Data.List.Basic
import Mathlib.Tactic.Common

/-!
Actions that commute and gain nothing from being repeated. However often they are taken and in
whatever order, the outcome is settled by which of them are taken at all.
-/

namespace Collector.Lib

/-- Any two actions of the family commute, and each of them is idempotent. -/
structure Confluent {ι σ : Type} (act : ι → σ → σ) (family : Set ι) : Prop where
  commutes : ∀ a ∈ family, ∀ b ∈ family, ∀ s, act a (act b s) = act b (act a s)
  idempotent : ∀ a ∈ family, ∀ s, act a (act a s) = act a s

namespace Confluent
variable {ι σ : Type} {act : ι → σ → σ} {family : Set ι} (confluent : Confluent act family)
include confluent

theorem foldr_act_comm {a : ι} (member : a ∈ family) {xs : List ι} (within : ∀ x ∈ xs, x ∈ family)
    (s : σ) : xs.foldr act (act a s) = act a (xs.foldr act s) := by
  induction xs with
  | nil => rfl
  | cons x xs ih =>
    have rest := ih fun y later => within y (List.mem_cons_of_mem _ later)
    rw [List.foldr_cons, List.foldr_cons, rest]
    exact confluent.commutes x (within x List.mem_cons_self) a member _

/-- An action that is taken anyway makes no difference when it is taken once more. -/
theorem foldr_absorbs {a : ι} {xs : List ι} (within : ∀ x ∈ xs, x ∈ family) (taken : a ∈ xs)
    (s : σ) : act a (xs.foldr act s) = xs.foldr act s := by
  induction xs with
  | nil => cases taken
  | cons x xs ih =>
    have first := within x List.mem_cons_self
    rcases List.mem_cons.mp taken with rfl | later
    · exact confluent.idempotent a first _
    · have rest := ih (fun y later => within y (List.mem_cons_of_mem _ later)) later
      rw [List.foldr_cons, confluent.commutes a (within a taken) x first, rest]

theorem foldr_foldr_absorbs {xs ys : List ι} (within : ∀ y ∈ ys, y ∈ family) (taken : xs ⊆ ys)
    (s : σ) : xs.foldr act (ys.foldr act s) = ys.foldr act s := by
  induction xs with
  | nil => rfl
  | cons x xs ih =>
    rw [List.foldr_cons, ih fun y later => taken (List.mem_cons_of_mem _ later)]
    exact confluent.foldr_absorbs within (taken List.mem_cons_self) s

theorem foldr_foldr_comm {xs ys : List ι} (within : ∀ x ∈ xs, x ∈ family)
    (also : ∀ y ∈ ys, y ∈ family) (s : σ) :
    xs.foldr act (ys.foldr act s) = ys.foldr act (xs.foldr act s) := by
  induction xs with
  | nil => rfl
  | cons x xs ih =>
    rw [List.foldr_cons, List.foldr_cons, ih fun y later => within y (List.mem_cons_of_mem _ later)]
    exact (confluent.foldr_act_comm (within x List.mem_cons_self) also _).symm

/-- Two sequences of the same actions have the same outcome. -/
theorem foldr_eq_of_mem_iff {xs ys : List ι} (within : ∀ x ∈ xs, x ∈ family)
    (same : ∀ x, x ∈ xs ↔ x ∈ ys) (s : σ) : xs.foldr act s = ys.foldr act s := by
  have also : ∀ y ∈ ys, y ∈ family := fun y member => within y ((same y).mpr member)
  calc xs.foldr act s
      = ys.foldr act (xs.foldr act s) :=
        (confluent.foldr_foldr_absorbs within (fun y => (same y).mpr) s).symm
    _ = xs.foldr act (ys.foldr act s) := confluent.foldr_foldr_comm also within s
    _ = ys.foldr act s := confluent.foldr_foldr_absorbs also (fun x => (same x).mp) s

end Confluent
end Collector.Lib
