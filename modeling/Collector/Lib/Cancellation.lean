import Collector.Lib.Kernel
import Mathlib.Data.Set.Card

/-!
Cancellation on a graph with cycles. A node stands once everything that points at it has fallen,
and falls once something standing points at it; a node of a cycle may do neither. The passes close
in on the nodes that are decided from both sides: they settle exactly when every cycle has a member
that falls, if they settle at all they do so within as many passes as there are targets, and else
they alternate for ever.
-/

namespace Collector.Lib
open Relation

variable {α : Type} (cancels : α → α → Prop)

mutual

/-- Everything that points at the node has fallen. -/
inductive Stands : α → Prop
  | intro {x : α} (fallen : ∀ y, cancels y x → Falls y) : Stands x

/-- Something that stands points at the node. -/
inductive Falls : α → Prop
  | intro {x y : α} (edge : cancels y x) (stands : Stands y) : Falls x

end

/-- On the cycle of `x`. -/
def SameCycle (x c : α) : Prop := TransGen cancels x c ∧ TransGen cancels c x

/-- The nodes whose state differs between two passes. -/
def undecided (n : Nat) : Set α :=
  { x | ¬ (x ∈ passes cancels n ↔ x ∈ passes cancels (n + 1)) }

variable {cancels}

/-- A larger guess gives a smaller next one. -/
theorem passes_antitone {m n : Nat} (below : passes cancels m ⊆ passes cancels n) :
    passes cancels (n + 1) ⊆ passes cancels (m + 1) := by
  rintro x ⟨y, edge, outside⟩
  exact ⟨y, edge, fun inside => outside (below inside)⟩

/-- A pass lies between the two before it. -/
theorem passes_nested (n : Nat) :
    passes cancels n ⊆ passes cancels (n + 2) ∧
        passes cancels (n + 2) ⊆ passes cancels (n + 1) ∨
      passes cancels (n + 1) ⊆ passes cancels (n + 2) ∧
        passes cancels (n + 2) ⊆ passes cancels n := by
  induction n with
  | zero => exact .inl ⟨Set.empty_subset _, passes_antitone (Set.empty_subset _)⟩
  | succ n ih =>
    rcases ih with ⟨low, high⟩ | ⟨low, high⟩
    · exact .inr ⟨passes_antitone high, passes_antitone low⟩
    · exact .inl ⟨passes_antitone high, passes_antitone low⟩

theorem mem_undecided {n : Nat} {x : α} : x ∈ undecided cancels n ↔
    ¬ (x ∈ passes cancels n ↔ x ∈ passes cancels (n + 1)) := Iff.rfl

theorem undecided_succ (n : Nat) : undecided cancels (n + 1) ⊆ undecided cancels n := by
  intro x open'
  rw [mem_undecided] at open' ⊢
  rcases @passes_nested _ cancels n with ⟨low, high⟩ | ⟨low, high⟩
  · have first := @low x
    have second := @high x
    tauto
  · have first := @low x
    have second := @high x
    tauto

/-- Where no node gets decided, the passes alternate. -/
theorem passes_alternate {n : Nat} (same : undecided cancels (n + 1) = undecided cancels n) :
    passes cancels (n + 2) = passes cancels n := by
  ext x
  have open' := Set.ext_iff.mp same x
  rw [mem_undecided, mem_undecided] at open'
  rcases @passes_nested _ cancels n with ⟨low, high⟩ | ⟨low, high⟩
  · have first := @low x
    have second := @high x
    tauto
  · have first := @low x
    have second := @high x
    tauto

theorem undecided_eq_empty_iff {n : Nat} :
    undecided cancels n = ∅ ↔ passes cancels (n + 1) = passes cancels n := by
  rw [Set.eq_empty_iff_forall_notMem]
  simp only [mem_undecided, not_not, Set.ext_iff]
  exact forall_congr' fun x => ⟨Iff.symm, Iff.symm⟩

theorem settled_later {k : Nat} (settled : passes cancels (k + 1) = passes cancels k) (n : Nat) :
    passes cancels (k + n + 1) = passes cancels (k + n) := by
  induction n with
  | zero => exact settled
  | succ n ih =>
    apply Set.Subset.antisymm
    · exact passes_antitone ih.ge
    · exact passes_antitone ih.le

/-- Alternating passes decide nothing more. -/
theorem undecided_alternate {m : Nat} (same : undecided cancels (m + 1) = undecided cancels m)
    (n : Nat) : undecided cancels (m + n) = undecided cancels m := by
  have again := passes_alternate same
  have turns : passes cancels (m + n) = passes cancels m ∧
        passes cancels (m + n + 1) = passes cancels (m + 1) ∨
      passes cancels (m + n) = passes cancels (m + 1) ∧
        passes cancels (m + n + 1) = passes cancels m := by
    induction n with
    | zero => exact .inl ⟨rfl, rfl⟩
    | succ n ih =>
      rcases ih with ⟨first, second⟩ | ⟨first, second⟩
      · refine .inr ⟨second, Set.Subset.antisymm ?_ ?_⟩
        · exact (passes_antitone second.ge).trans again.le
        · exact again.ge.trans (passes_antitone second.le)
      · refine .inl ⟨second, Set.Subset.antisymm ?_ ?_⟩
        · exact passes_antitone second.ge
        · exact passes_antitone second.le
  ext x
  rw [mem_undecided, mem_undecided]
  rcases turns with ⟨first, second⟩ | ⟨first, second⟩
  · rw [first, second]
  · rw [first, second]
    exact not_congr Iff.comm

/-! ## How many passes it takes -/

section Bound
variable {targets : Finset α} (known : ∀ y x, cancels y x → x ∈ targets)
include known

theorem undecided_targets (n : Nat) : undecided cancels n ⊆ targets := by
  intro x open'
  have first : x ∈ undecided cancels 0 := by
    induction n with
    | zero => exact open'
    | succ n ih => exact ih (undecided_succ n open')
  have named : x ∈ passes cancels 1 := by
    by_contra absent
    exact first (iff_of_false (Set.notMem_empty x) absent)
  obtain ⟨y, edge, _⟩ := named
  exact known y x edge

theorem undecided_finite (n : Nat) : (undecided cancels n).Finite :=
  targets.finite_toSet.subset (undecided_targets known n)

/-- Each pass decides a node, until one does not. -/
theorem undecided_card (n : Nat) : (undecided cancels n).ncard + n ≤ targets.card ∨
    ∃ m < n, undecided cancels (m + 1) = undecided cancels m := by
  induction n with
  | zero =>
    left
    rw [← Set.ncard_coe_finset targets]
    exact Set.ncard_le_ncard (undecided_targets known 0) targets.finite_toSet
  | succ n ih =>
    rcases ih with fewer | stuck
    · by_cases same : undecided cancels (n + 1) = undecided cancels n
      · exact .inr ⟨n, Nat.lt_succ_self n, same⟩
      · have smaller : undecided cancels (n + 1) ⊂ undecided cancels n :=
          (undecided_succ n).ssubset_of_ne same
        have less := Set.ncard_lt_ncard smaller (undecided_finite known n)
        left
        omega
    · obtain ⟨m, before, same⟩ := stuck
      exact .inr ⟨m, Nat.lt_succ_of_lt before, same⟩

/-- Passes that settle at all settle within as many passes as there are targets. -/
theorem passes_settle {k : Nat} (settled : passes cancels (k + 1) = passes cancels k) :
    passes cancels (targets.card + 1) = passes cancels targets.card := by
  rcases undecided_card known targets.card with none | ⟨m, before, stuck⟩
  · rw [← undecided_eq_empty_iff, ← Set.ncard_eq_zero (undecided_finite known _)]
    omega
  · have empty : undecided cancels m = ∅ := by
      rw [← undecided_alternate stuck k, Nat.add_comm m k, undecided_eq_empty_iff]
      exact settled_later settled m
    rw [← undecided_eq_empty_iff, ← Nat.add_sub_cancel' before.le, undecided_alternate stuck]
    exact empty

end Bound

/-! ## Which nodes are decided -/

/-- A pass with an even number cancels only what falls, one with an odd number leaves only what
stands. -/
theorem passes_grounded (n : Nat) (x : α) :
    (Even n → x ∈ passes cancels n → Falls cancels x) ∧
      (¬ Even n → x ∉ passes cancels n → Stands cancels x) := by
  induction n generalizing x with
  | zero => exact ⟨fun _ none => absurd none (Set.notMem_empty x), fun odd => absurd Even.zero odd⟩
  | succ n ih =>
    rw [Nat.even_add_one, not_not]
    constructor
    · rintro odd ⟨y, edge, outside⟩
      exact .intro edge ((ih y).2 odd outside)
    · intro even outside
      refine .intro fun y edge => (ih y).1 even ?_
      by_contra absent
      exact outside ⟨y, edge, absent⟩

mutual

/-- What stands is left by both of two alternating passes. -/
theorem stands_passes {n : Nat} (again : passes cancels (n + 2) = passes cancels n) {x : α} :
    Stands cancels x → x ∉ passes cancels n ∧ x ∉ passes cancels (n + 1)
  | .intro fallen => by
    constructor
    · rw [← again]
      rintro ⟨y, edge, outside⟩
      exact outside (falls_passes again (fallen y edge)).2
    · rintro ⟨y, edge, outside⟩
      exact outside (falls_passes again (fallen y edge)).1

/-- What falls is cancelled by both. -/
theorem falls_passes {n : Nat} (again : passes cancels (n + 2) = passes cancels n) {x : α} :
    Falls cancels x → x ∈ passes cancels n ∧ x ∈ passes cancels (n + 1)
  | .intro (y := y) edge stands => by
    have outside := stands_passes again stands
    constructor
    · rw [← again]
      exact ⟨y, edge, outside.2⟩
    · exact ⟨y, edge, outside.1⟩

end

/-- Every node is decided where the passes settle. -/
theorem decided_of_settled {n : Nat} (settled : passes cancels (n + 1) = passes cancels n) (x : α) :
    Stands cancels x ∨ Falls cancels x := by
  by_cases member : x ∈ passes cancels n
  · right
    by_cases even : Even n
    · exact (passes_grounded n x).1 even member
    · exact (passes_grounded (n + 1) x).1 (Nat.even_add_one.mpr even) (settled ▸ member)
  · left
    by_cases even : Even n
    · exact (passes_grounded (n + 1) x).2 (fun also => Nat.even_add_one.mp also even)
        (settled ▸ member)
    · exact (passes_grounded n x).2 even member

/-- Where the passes settle, every cycle has a member that falls. -/
theorem broken_of_settled {n : Nat} (settled : passes cancels (n + 1) = passes cancels n) {x : α}
    (cycle : TransGen cancels x x) : ∃ c, SameCycle cancels x c ∧ Falls cancels c := by
  obtain ⟨y, path, edge⟩ := TransGen.tail'_iff.mp cycle
  rcases decided_of_settled settled y with stands | falls
  · exact ⟨x, ⟨cycle, cycle⟩, .intro edge stands⟩
  · exact ⟨y, ⟨cycle.trans_left path, .single edge⟩, falls⟩

/-- A node that is never decided has such a node before it. -/
theorem undecided_back {n : Nat} (again : passes cancels (n + 2) = passes cancels n) {x : α}
    (open' : x ∈ undecided cancels n) : ∃ y ∈ undecided cancels n, cancels y x := by
  by_cases member : x ∈ passes cancels n
  · have outside : x ∉ passes cancels (n + 1) := fun also => open' (iff_of_true member also)
    rw [← again] at member
    obtain ⟨y, edge, absent⟩ := member
    refine ⟨y, fun same => absent (same.mp ?_), edge⟩
    by_contra left
    exact outside ⟨y, edge, left⟩
  · have inside : x ∈ passes cancels (n + 1) := by
      by_contra absent
      exact open' (iff_of_false member absent)
    obtain ⟨y, edge, absent⟩ := inside
    refine ⟨y, fun same => absent (same.mpr ?_), edge⟩
    by_contra left
    rw [← again] at member
    exact member ⟨y, edge, left⟩

/-- The edges within a set. -/
def Within (r : α → α → Prop) (D : Set α) (a b : α) : Prop := a ∈ D ∧ b ∈ D ∧ r a b

/-- A finite set whose members all have one before them holds a cycle. -/
theorem exists_cycle {r : α → α → Prop} {D : Set α} (finite : D.Finite) (some : D.Nonempty)
    (back : ∀ x ∈ D, ∃ y ∈ D, r y x) : ∃ x ∈ D, TransGen (Within r D) x x := by
  by_contra none
  push Not at none
  have : Finite D := finite
  have : IsTrans D fun a b => TransGen (Within r D) a b := ⟨fun _ _ _ => TransGen.trans⟩
  have : Std.Irrefl fun a b : D => TransGen (Within r D) a b := ⟨fun a => none a a.2⟩
  have wellFounded := Finite.wellFounded_of_trans_of_irrefl
    fun a b : D => TransGen (Within r D) a b
  obtain ⟨x, inside⟩ := some
  obtain ⟨⟨m, member⟩, -, least⟩ := wellFounded.has_min Set.univ ⟨⟨x, inside⟩, trivial⟩
  obtain ⟨y, before, edge⟩ := back m member
  exact least ⟨y, before⟩ trivial (.single ⟨before, member, edge⟩)

/-- Where every node points at one node at most, a cycle within a set is all of the cycle. -/
theorem mem_of_sameCycle {D : Set α} (single : ∀ y x x', cancels y x → cancels y x' → x = x')
    {x c : α} (cycle : TransGen (Within cancels D) x x) (path : TransGen cancels x c) :
    TransGen (Within cancels D) x c ∧ TransGen (Within cancels D) c x := by
  have next : ∀ {b c}, TransGen (Within cancels D) x b → TransGen (Within cancels D) b x →
      cancels b c → TransGen (Within cancels D) x c ∧ TransGen (Within cancels D) c x := by
    intro b c there back edge
    obtain ⟨b', step, rest⟩ := TransGen.head'_iff.mp back
    have same := single b b' c step.2.2 edge
    rw [same] at step rest
    exact ⟨there.tail step, cycle.trans_right rest⟩
  induction path with
  | single edge => exact next cycle cycle edge
  | tail _ edge ih => exact next ih.1 ih.2 edge

/-- The first member of a cycle to fall falls by a node outside it. -/
theorem falls_from_outside {x c : α} (on : SameCycle cancels x c) : Falls cancels c →
    ∃ b y, SameCycle cancels x b ∧ cancels y b ∧ ¬ SameCycle cancels x y ∧ Stands cancels y
  | .intro (y := y) edge (.intro fallen) => by
    by_cases inside : SameCycle cancels x y
    · obtain ⟨p, path, before⟩ := TransGen.tail'_iff.mp (inside.2.trans inside.1)
      have back : SameCycle cancels x p := ⟨inside.1.trans_left path, .head before inside.2⟩
      exact falls_from_outside back (fallen p before)
    · exact ⟨c, y, on, edge, inside, .intro fallen⟩

/-- A cycle falls exactly when something that stands points at it from outside. -/
theorem falls_on_cycle_iff {x : α} : (∃ c, SameCycle cancels x c ∧ Falls cancels c) ↔
    ∃ b y, SameCycle cancels x b ∧ cancels y b ∧ ¬ SameCycle cancels x y ∧ Stands cancels y := by
  constructor
  · rintro ⟨c, on, falls⟩
    exact falls_from_outside on falls
  · rintro ⟨b, y, on, edge, -, stands⟩
    exact ⟨b, on, .intro edge stands⟩

/-- **The passes settle exactly when every cycle has a member that falls.** -/
theorem passes_settle_iff {targets : Finset α} (known : ∀ y x, cancels y x → x ∈ targets)
    (single : ∀ y x x', cancels y x → cancels y x' → x = x') :
    passes cancels (targets.card + 1) = passes cancels targets.card ↔
      ∀ x, TransGen cancels x x → ∃ c, SameCycle cancels x c ∧ Falls cancels c := by
  constructor
  · exact fun settled x cycle => broken_of_settled settled cycle
  · intro broken
    rcases undecided_card known targets.card with none | ⟨m, _, stuck⟩
    · rw [← undecided_eq_empty_iff, ← Set.ncard_eq_zero (undecided_finite known _)]
      omega
    · apply passes_settle known (k := m)
      rw [← undecided_eq_empty_iff]
      by_contra some
      have again := passes_alternate stuck
      obtain ⟨x, member, cycle⟩ := exists_cycle (undecided_finite known m)
        (Set.nonempty_iff_ne_empty.mpr some) fun x => undecided_back again
      have whole : TransGen cancels x x := cycle.lift id fun _ _ step => step.2.2
      obtain ⟨c, ⟨path, _⟩, falls⟩ := broken x whole
      obtain ⟨_, back⟩ := mem_of_sameCycle single cycle path
      obtain ⟨_, step, _⟩ := TransGen.head'_iff.mp back
      have decided := falls_passes again falls
      exact step.1 (iff_of_true decided.1 decided.2)

end Collector.Lib
