import Mathlib.Data.Finset.Card
import Mathlib.Data.List.Sort
import Mathlib.Data.Prod.Lex
import Mathlib.Tactic.Common

/-!
Sorting by a key, as `sorted(xs, key=...)` does: stable, and in the order of the keys. Where no
two entries share a key the result depends on the entries alone, whatever order they came in.
-/

namespace Collector.Lib
variable {α κ : Type} [LinearOrder κ] (key : α → κ)

/-- `sorted(xs, key=key)`. -/
def sortedBy (xs : List α) : List α := xs.insertionSort fun a b => key a ≤ key b

theorem sortedBy_perm (xs : List α) : (sortedBy key xs).Perm xs :=
  xs.perm_insertionSort _

@[simp] theorem mem_sortedBy {x : α} {xs : List α} : x ∈ sortedBy key xs ↔ x ∈ xs :=
  (sortedBy_perm key xs).mem_iff

theorem sortedBy_pairwise (xs : List α) : (sortedBy key xs).Pairwise fun a b => key a ≤ key b := by
  have : Std.Total fun a b : α => key a ≤ key b := ⟨fun a b => le_total (key a) (key b)⟩
  have : IsTrans α fun a b => key a ≤ key b := ⟨fun _ _ _ first second => first.trans second⟩
  exact List.pairwise_insertionSort _ xs

theorem sortedBy_of_pairwise {xs : List α} (sorted : xs.Pairwise fun a b => key a ≤ key b) :
    sortedBy key xs = xs := sorted.insertionSort_eq

/-- Two arrangements of entries with different keys are sorted into the same list. -/
theorem sortedBy_eq_of_perm {xs ys : List α} (perm : xs.Perm ys)
    (distinct : ∀ a ∈ xs, ∀ b ∈ xs, key a = key b → a = b) : sortedBy key xs = sortedBy key ys := by
  have arranged : (sortedBy key xs).Perm (sortedBy key ys) :=
    ((sortedBy_perm key xs).trans perm).trans (sortedBy_perm key ys).symm
  apply arranged.eq_of_pairwise _ (sortedBy_pairwise key xs) (sortedBy_pairwise key ys)
  intro a b here there below above
  apply distinct a ((mem_sortedBy key).mp here) b _ (le_antisymm below above)
  exact perm.symm.subset ((mem_sortedBy key).mp there)

/-- `sorted(s, key=key)` of a set; the key tells its elements apart. -/
def sortedSet (injective : Function.Injective key) (s : Finset α) : List α :=
  Quot.liftOn s.val (sortedBy key) fun _ _ perm =>
    sortedBy_eq_of_perm key perm fun _ _ _ _ same => injective same

theorem mem_sortedSet {injective : Function.Injective key} {s : Finset α} {x : α} :
    x ∈ sortedSet key injective s ↔ x ∈ s := by
  obtain ⟨⟨xs⟩, _⟩ := s
  exact mem_sortedBy key

theorem nodup_sortedSet {injective : Function.Injective key} (s : Finset α) :
    (sortedSet key injective s).Nodup := by
  obtain ⟨⟨xs⟩, nodup⟩ := s
  exact (sortedBy_perm key xs).nodup_iff.mpr nodup

/-- The keys of a sorted set climb. -/
theorem sortedSet_pairwise {injective : Function.Injective key} (s : Finset α) :
    (sortedSet key injective s).Pairwise fun a b => key a < key b := by
  have apart : (sortedSet key injective s).Nodup := nodup_sortedSet key s
  have climbing : (sortedSet key injective s).Pairwise fun a b => key a ≤ key b := by
    obtain ⟨⟨xs⟩, _⟩ := s
    exact sortedBy_pairwise key xs
  apply climbing.imp₂ _ apart
  intro a b below different
  exact lt_of_le_of_ne below fun same => different (injective same)

theorem length_sortedSet {injective : Function.Injective key} (s : Finset α) :
    (sortedSet key injective s).length = s.card := by
  obtain ⟨⟨xs⟩, _⟩ := s
  exact (sortedBy_perm key xs).length_eq

end Collector.Lib
