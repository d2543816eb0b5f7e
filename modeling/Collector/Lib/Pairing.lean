import Mathlib.Data.List.Forall2

/-!
Lists paired off element by element, beyond what `List.Forall₂` comes with: pairings that share a
list are joined, and what one list is paired with is carried over to the other.
-/

namespace Collector.Lib
variable {α β γ δ : Type} {xs : List α} {ys : List β} {zs : List γ}

theorem forall₂_congr_mem {R S : α → β → Prop}
    (same : ∀ x ∈ xs, ∀ y, R x y ↔ S x y) : List.Forall₂ R xs ys ↔ List.Forall₂ S xs ys := by
  induction xs generalizing ys with
  | nil => simp
  | cons x xs ih =>
    simp only [List.forall₂_cons_left_iff, same x List.mem_cons_self,
      ih fun x member => same x (List.mem_cons_of_mem _ member)]

theorem exists_forall₂ {R : β → α → Prop} (each : ∀ x ∈ xs, ∃ y, R y x) : ∃ ys, List.Forall₂ R ys xs := by
  induction xs with
  | nil => exact ⟨[], .nil⟩
  | cons x xs ih =>
    obtain ⟨y, related⟩ := each x List.mem_cons_self
    obtain ⟨ys, paired⟩ := ih fun x member => each x (List.mem_cons_of_mem _ member)
    exact ⟨y :: ys, .cons related paired⟩

theorem forall₂_of_mem_right {R : α → β → Prop} (paired : List.Forall₂ R xs ys) {y : β}
    (member : y ∈ ys) : ∃ x ∈ xs, R x y := by
  induction paired with
  | nil => cases member
  | @cons x y' xs ys related _ ih =>
    rcases List.mem_cons.mp member with rfl | later
    · exact ⟨x, List.mem_cons_self, related⟩
    · obtain ⟨other, present, found⟩ := ih later
      exact ⟨other, List.mem_cons_of_mem _ present, found⟩

/-- Two lists paired with one list are paired with each other. -/
theorem forall₂_join {R : α → γ → Prop} {S : β → γ → Prop} {T : α → β → Prop}
    (left : List.Forall₂ R xs zs) (right : List.Forall₂ S ys zs)
    (join : ∀ x ∈ xs, ∀ y z, R x z → S y z → T x y) : List.Forall₂ T xs ys := by
  induction left generalizing ys with
  | nil =>
    cases right
    exact .nil
  | @cons x z xs zs first _ ih =>
    obtain ⟨y, ys, second, rest, rfl⟩ := List.forall₂_cons_right_iff.mp right
    refine .cons (join x List.mem_cons_self y z first second) (ih rest ?_)
    exact fun x member => join x (List.mem_cons_of_mem _ member)

/-- What the entries of one list are paired with is found for the list it is paired with. -/
theorem forall₂_transfer {R : α → β → Prop} {S : α → γ → Prop} {T : β → γ → Prop}
    {g : γ → δ} (across : List.Forall₂ R xs ys) (down : List.Forall₂ S xs zs)
    (each : ∀ x y z, R x y → S x z → ∃ w, T y w ∧ g z = g w) :
    ∃ ws, List.Forall₂ T ys ws ∧ zs.map g = ws.map g := by
  induction across generalizing zs with
  | nil =>
    cases down
    exact ⟨[], .nil, rfl⟩
  | @cons x y xs ys related _ ih =>
    obtain ⟨z, zs, first, rest, rfl⟩ := List.forall₂_cons_left_iff.mp down
    obtain ⟨w, found, same⟩ := each x y z related first
    obtain ⟨ws, others, same'⟩ := ih rest
    exact ⟨w :: ws, .cons found others, by rw [List.map_cons, List.map_cons, same, same']⟩

end Collector.Lib
