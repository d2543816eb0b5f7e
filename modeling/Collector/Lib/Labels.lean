import Mathlib.Data.List.DropRight
import Mathlib.Tactic.Common

/-!
Lists cut at a separator, read from their end: the last piece, the pieces after it is cut off, and
the endings that start behind a separator.
-/

namespace Collector.Lib.Labels

section Zones
variable {α : Type}

/-- A list is the zone itself, or ends with it behind a separator. -/
def Within (sep : α) (zone xs : List α) : Prop := xs = zone ∨ ∃ init, xs = init ++ sep :: zone

theorem Within.trans {sep : α} {zone inner xs : List α} (first : Within sep zone inner)
    (second : Within sep inner xs) : Within sep zone xs := by
  rcases second with rfl | ⟨init, rfl⟩
  · exact first
  · rcases first with rfl | ⟨outer, rfl⟩
    · exact .inr ⟨init, rfl⟩
    · exact .inr ⟨init ++ sep :: outer, by rw [List.append_assoc, List.cons_append]⟩

theorem intercalate_append {sep : α} {pieces more : List (List α)} (nonempty : pieces ≠ [])
    (others : more ≠ []) :
    [sep].intercalate (pieces ++ more) = [sep].intercalate pieces ++ sep :: [sep].intercalate more := by
  induction pieces with
  | nil => exact absurd rfl nonempty
  | cons first rest ih =>
    cases rest with
    | nil =>
      rw [List.singleton_append, List.intercalate_cons_of_ne_nil others, List.intercalate_singleton,
        List.append_assoc]
      rfl
    | cons second rest =>
      rw [List.cons_append, List.cons_append, List.intercalate_cons_cons, List.intercalate_cons_cons,
        ← List.cons_append, ih (List.cons_ne_nil _ _), List.append_assoc, List.append_assoc, List.append_assoc]

end Zones

section Stops
variable {α : Type} {p : α → Bool} {x : α}

theorem dropWhile_stop (other : p x = false) (xs ys : List α) :
    (xs ++ x :: ys).dropWhile p = xs.dropWhile p ++ x :: ys := by
  induction xs with
  | nil => simp [other]
  | cons y xs ih => cases meets : p y <;> simp [meets, ih]

theorem rdropWhile_stop (other : p x = false) (xs ys : List α) :
    (xs ++ x :: ys).rdropWhile p = xs ++ x :: ys.rdropWhile p := by
  have reversed : (xs ++ x :: ys).reverse = ys.reverse ++ x :: xs.reverse := by simp
  rw [List.rdropWhile, reversed, dropWhile_stop other, List.rdropWhile]
  simp

end Stops

section Pieces
variable {α : Type} [BEq α] [LawfulBEq α]

/-- What stands behind the last separator, and before it. -/
theorem splitOn_last (sep : α) (xs : List α) : ∃ before last, xs = before ++ last ∧ sep ∉ last ∧
    (before = [] ∧ xs.splitOn sep = [last] ∨
      ∃ init, before = init ++ [sep] ∧ xs.splitOn sep = init.splitOn sep ++ [last]) := by
  by_cases cut : sep ∈ xs
  · obtain ⟨last, init, shape, free⟩ := List.eq_append_cons_of_mem (List.mem_reverse.mpr cut)
    have turned : xs = init.reverse ++ sep :: last.reverse := by
      rw [← List.reverse_reverse xs, shape, List.reverse_append, List.reverse_cons, List.append_assoc]
      rfl
    have whole : sep ∉ last.reverse := fun member => free (List.mem_reverse.mp member)
    refine ⟨init.reverse ++ [sep], last.reverse, ?_, whole, .inr ⟨init.reverse, rfl, ?_⟩⟩
    · rw [turned, List.append_assoc]
      rfl
    · rw [turned, List.splitOn_append_cons_self, List.splitOn_eq_singleton whole]
  · exact ⟨[], xs, rfl, cut, .inl ⟨rfl, List.splitOn_eq_singleton cut⟩⟩

/-- Nothing to drop at the end behind a piece that has no separator. -/
theorem rdropWhile_piece {sep : α} (before : List α) {last : List α} (some : last ≠ [])
    (free : sep ∉ last) : (before ++ last).rdropWhile (· == sep) = before ++ last := by
  obtain ⟨init, c, rfl⟩ := (List.eq_nil_or_concat' last).resolve_left some
  rw [← List.append_assoc, List.rdropWhile_concat_neg]
  intro same
  exact free (List.mem_append_right _ (List.mem_singleton.mpr (beq_iff_eq.mp same).symm))

/-- The endings at a piece are what the list is within. -/
theorem exists_drop_iff {sep : α} {zone xs : List α} :
    (∃ i < (xs.splitOn sep).length, [sep].intercalate ((xs.splitOn sep).drop i) = zone) ↔
      Within sep zone xs := by
  constructor
  · rintro ⟨i, inside, rfl⟩
    have whole : [sep].intercalate ((xs.splitOn sep).take i ++ (xs.splitOn sep).drop i) = xs := by
      rw [List.take_append_drop, List.intercalate_splitOn]
    have others : (xs.splitOn sep).drop i ≠ [] := by
      rw [Ne, List.drop_eq_nil_iff]
      omega
    by_cases none : (xs.splitOn sep).take i = []
    · rw [none, List.nil_append] at whole
      exact .inl whole.symm
    · rw [intercalate_append none others] at whole
      exact .inr ⟨_, whole.symm⟩
  · rintro (rfl | ⟨init, rfl⟩)
    · refine ⟨0, List.length_pos_of_ne_nil (List.splitOn_ne_nil _ _), ?_⟩
      rw [List.drop_zero, List.intercalate_splitOn]
    · rw [List.splitOn_append_cons_self]
      refine ⟨(init.splitOn sep).length, ?_, ?_⟩
      · rw [List.length_append]
        have := List.length_pos_of_ne_nil (List.splitOn_ne_nil sep zone)
        omega
      · rw [List.drop_left, List.intercalate_splitOn]

end Pieces

end Collector.Lib.Labels
