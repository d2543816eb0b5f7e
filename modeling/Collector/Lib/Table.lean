import Mathlib.Data.List.Sort
import Mathlib.Data.List.Nodup
import Mathlib.Data.Option.Defs
import Mathlib.Tactic.Common

/-!
Keyed tables. A table is its rows in insertion order together with the fact that no two of
them share the primary key, so a lookup has at most one answer and every write is described
by what it does to the lookup of one key.
-/

namespace Collector.Lib

structure Table {α κ : Type} (key : α → κ) where
  rows : List α
  nodup : (rows.map key).Nodup

namespace Table
variable {α κ : Type} {key : α → κ}

def empty : Table key := ⟨[], List.nodup_nil⟩

instance : EmptyCollection (Table key) := ⟨empty⟩

@[simp] theorem rows_empty : (∅ : Table key).rows = [] := rfl

def keys (t : Table key) : List κ := t.rows.map key

theorem mem_keys_of_mem (t : Table key) {row : α} (present : row ∈ t.rows) :
    key row ∈ t.keys := List.mem_map_of_mem present

/-- Two rows with one key are the same row. -/
theorem eq_of_key_eq (t : Table key) {row other : α} (present : row ∈ t.rows)
    (also : other ∈ t.rows) (same : key row = key other) : row = other :=
  List.inj_on_of_nodup_map t.nodup present also same

private theorem map_update (key : α → κ) (rows : List α) (p : α → Bool) (f : α → α)
    (keeps : ∀ row, key (f row) = key row) :
    (rows.map fun row => if p row then f row else row).map key = rows.map key := by
  rw [List.map_map]
  apply List.map_congr_left
  intro row _
  change key (if p row then f row else row) = key row
  split
  · exact keeps row
  · rfl

/-- `UPDATE … SET f WHERE p`; the primary key is never written. -/
def update (t : Table key) (p : α → Bool) (f : α → α)
    (keeps : ∀ row, key (f row) = key row) : Table key where
  rows := t.rows.map fun row => if p row then f row else row
  nodup := by
    rw [map_update key t.rows p f keeps]
    exact t.nodup

@[simp] theorem rows_update (t : Table key) (p : α → Bool) (f : α → α)
    (keeps : ∀ row, key (f row) = key row) :
    (t.update p f keeps).rows = t.rows.map fun row => if p row then f row else row := rfl

@[simp] theorem keys_update (t : Table key) (p : α → Bool) (f : α → α)
    (keeps : ∀ row, key (f row) = key row) : (t.update p f keeps).keys = t.keys :=
  map_update key t.rows p f keeps

/-- `DELETE … WHERE p`. -/
def delete (t : Table key) (p : α → Bool) : Table key where
  rows := t.rows.filter fun row => !p row
  nodup := (List.filter_sublist.map key).nodup t.nodup

theorem mem_delete (t : Table key) (p : α → Bool) (row : α) :
    row ∈ (t.delete p).rows ↔ row ∈ t.rows ∧ p row = false := by
  simp [delete]

theorem mem_keys_of_mem_delete (t : Table key) (p : α → Bool) {k : κ}
    (member : k ∈ (t.delete p).keys) : k ∈ t.keys := by
  obtain ⟨row, kept, rfl⟩ := List.mem_map.mp member
  exact t.mem_keys_of_mem ((t.mem_delete p row).mp kept).1

/-- `SELECT … WHERE p ORDER BY le LIMIT n`. -/
def select (t : Table key) (p : α → Bool) (le : α → α → Prop) [DecidableRel le] (n : Nat) :
    List α :=
  ((t.rows.filter p).insertionSort le).take n

theorem mem_of_mem_select {t : Table key} {p : α → Bool} {le : α → α → Prop} [DecidableRel le]
    {n : Nat} {row : α} (chosen : row ∈ t.select p le n) : row ∈ t.rows ∧ p row = true := by
  have sorted := List.mem_of_mem_take chosen
  rw [List.mem_insertionSort] at sorted
  exact List.mem_filter.mp sorted

section Lookup
variable [DecidableEq κ]

def find? (t : Table key) (k : κ) : Option α := t.rows.find? fun row => key row = k

theorem find?_eq_some (t : Table key) (k : κ) (row : α) :
    t.find? k = some row ↔ row ∈ t.rows ∧ key row = k := by
  constructor
  · intro found
    exact ⟨List.mem_of_find?_eq_some found, by simpa using List.find?_some found⟩
  · rintro ⟨present, rfl⟩
    cases found : t.find? (key row) with
    | none => simpa using List.find?_eq_none.mp found row present
    | some other =>
      have same : key other = key row := by simpa using List.find?_some found
      rw [t.eq_of_key_eq (List.mem_of_find?_eq_some found) present same]

theorem find?_of_mem (t : Table key) {row : α} (present : row ∈ t.rows) :
    t.find? (key row) = some row := (t.find?_eq_some _ _).mpr ⟨present, rfl⟩

theorem find?_eq_none (t : Table key) (k : κ) : t.find? k = none ↔ k ∉ t.keys := by
  simp only [find?, List.find?_eq_none, decide_eq_true_eq, keys, List.mem_map, not_exists, not_and]

theorem mem_keys_iff (t : Table key) (k : κ) : k ∈ t.keys ↔ ∃ row, t.find? k = some row := by
  rw [← Option.isSome_iff_exists, ← Option.ne_none_iff_isSome, ne_eq, find?_eq_none, not_not]

@[simp] theorem find?_empty (k : κ) : (∅ : Table key).find? k = none := rfl

theorem find?_update (t : Table key) (p : α → Bool) (f : α → α)
    (keeps : ∀ row, key (f row) = key row) (k : κ) :
    (t.update p f keeps).find? k = (t.find? k).map fun row => if p row then f row else row := by
  have guard : (fun row => decide (key row = k)) ∘ (fun row => if p row then f row else row) =
      fun row => decide (key row = k) := by
    funext row
    change decide (key (if p row then f row else row) = k) = decide (key row = k)
    split
    · rw [keeps]
    · rfl
  simp only [find?, rows_update, List.find?_map, guard]

theorem find?_delete (t : Table key) (p : α → Bool) (k : κ) :
    (t.delete p).find? k = (t.find? k).filter fun row => !p row := by
  cases found : t.find? k with
  | none =>
    rw [Option.filter_none, find?_eq_none]
    rw [find?_eq_none] at found
    intro survives
    obtain ⟨row, present, rfl⟩ := List.mem_map.mp survives
    exact found (t.mem_keys_of_mem ((t.mem_delete p row).mp present).1)
  | some row =>
    obtain ⟨present, rfl⟩ := (t.find?_eq_some k row).mp found
    cases gone : p row with
    | false =>
      simp only [Option.filter, gone, Bool.not_false, ↓reduceIte]
      exact (find?_eq_some _ _ _).mpr ⟨(t.mem_delete p row).mpr ⟨present, gone⟩, rfl⟩
    | true =>
      simp only [Option.filter, gone, Bool.not_true, Bool.false_eq_true, ↓reduceIte]
      rw [find?_eq_none]
      intro survives
      obtain ⟨other, kept, same⟩ := List.mem_map.mp survives
      obtain ⟨present', live⟩ := (t.mem_delete p other).mp kept
      rw [t.eq_of_key_eq present' present same, gone] at live
      cases live

/-- `INSERT … ON CONFLICT (key) DO NOTHING`. -/
def insert (t : Table key) (row : α) : Table key :=
  if fresh : key row ∈ t.keys then t
  else ⟨t.rows ++ [row], by
    rw [List.map_append, List.nodup_append]
    refine ⟨t.nodup, by simp, ?_⟩
    intro k present l only same
    rw [List.map_singleton, List.mem_singleton] at only
    exact fresh (only ▸ same ▸ present)⟩

theorem rows_insert (t : Table key) (row : α) (fresh : key row ∉ t.keys) :
    (t.insert row).rows = t.rows ++ [row] := by
  simp only [insert, dif_neg fresh]

theorem mem_keys_insert (t : Table key) (row : α) {k : κ} (member : k ∈ (t.insert row).keys) :
    k = key row ∨ k ∈ t.keys := by
  by_cases fresh : key row ∈ t.keys
  · simp only [insert, dif_pos fresh] at member
    exact .inr member
  · simp only [keys, rows_insert t row fresh, List.map_append, List.map_singleton,
      List.mem_append, List.mem_singleton] at member
    exact member.symm

theorem find?_insert (t : Table key) (row : α) (fresh : key row ∉ t.keys) (k : κ) :
    (t.insert row).find? k = if key row = k then some row else t.find? k := by
  simp only [find?, rows_insert t row fresh, List.find?_append]
  split
  · rename_i same
    subst same
    have absent : t.rows.find? (fun other => decide (key other = key row)) = none :=
      (t.find?_eq_none (key row)).mpr fresh
    simp [absent]
  · rename_i other
    simp [other]

theorem find?_insert_of_ne (t : Table key) (row : α) {k : κ} (other : k ≠ key row) :
    (t.insert row).find? k = t.find? k := by
  by_cases fresh : key row ∈ t.keys
  · simp only [insert, dif_pos fresh]
  · rw [find?_insert t row fresh, if_neg other.symm]

/-- An update of one key, seen from any key. -/
theorem find?_update_key (t : Table key) (i : κ) (f : α → α) (keeps : ∀ row, key (f row) = key row)
    (k : κ) : (t.update (fun row => key row = i) f keeps).find? k =
      if k = i then (t.find? k).map f else t.find? k := by
  rw [find?_update]
  cases found : t.find? k with
  | none => simp
  | some row =>
    obtain ⟨_, rfl⟩ := (t.find?_eq_some k row).mp found
    by_cases here : key row = i
    · simp [here]
    · simp [here]

/-- The row of one key written back. -/
def put (t : Table key) (row : α) : Table key :=
  t.update (fun old => key old = key row) (fun old => if key old = key row then row else old)
    fun old => by
      split
      · rename_i same
        exact same.symm
      · rfl

theorem find?_put_of_ne (t : Table key) (row : α) {k : κ} (other : k ≠ key row) :
    (t.put row).find? k = t.find? k := by
  rw [put, find?_update_key, if_neg other]

theorem find?_put (t : Table key) (row : α) {old : α} (known : t.find? (key row) = some old) (k : κ) :
    (t.put row).find? k = if k = key row then some row else t.find? k := by
  simp only [put, find?_update]
  by_cases here : k = key row
  · have same := ((t.find?_eq_some _ _).mp known).2
    simp [here, known, same]
  · cases found : t.find? k with
    | none => simp [here]
    | some other =>
      obtain ⟨_, rfl⟩ := (t.find?_eq_some k other).mp found
      simp [here]

@[simp] theorem keys_put (t : Table key) (row : α) : (t.put row).keys = t.keys := keys_update ..

section Moves
variable {R : α → α → Prop} (refl : ∀ row, R row row)
include refl

/-- A bulk update moves every row by what it does to the rows it picks. -/
theorem rel_update (t : Table key) (p : α → Bool) (f : α → α) (keeps : ∀ row, key (f row) = key row)
    (moves : ∀ row ∈ t.rows, p row = true → R row (f row)) (k : κ) :
    Option.Rel R (t.find? k) ((t.update p f keeps).find? k) := by
  rw [find?_update]
  cases found : t.find? k with
  | none => exact .none
  | some row =>
    refine .some ?_
    dsimp only
    split
    · rename_i picked
      exact moves row ((t.find?_eq_some _ _).mp found).1 picked
    · exact refl row

theorem rel_put (t : Table key) (row : α) {old : α} (known : t.find? (key row) = some old)
    (move : R old row) (k : κ) : Option.Rel R (t.find? k) ((t.put row).find? k) := by
  rw [t.find?_put row known]
  by_cases here : k = key row
  · rw [if_pos here, here, known]
    exact .some move
  · rw [if_neg here]
    cases t.find? k with
    | none => exact .none
    | some other => exact .some (refl other)

end Moves

end Lookup

section Related
variable {β : Type} {R : α → α → Prop} {x y : Option α}

/-- What related rows agree on is read off either of them. -/
theorem bind_eq_of_rel {f : α → Option β} (same : ∀ row other, R row other → f other = f row)
    (rel : Option.Rel R x y) : y.bind f = x.bind f := by
  cases rel with
  | none => rfl
  | some moved => exact same _ _ moved

theorem map_eq_of_rel {f : α → β} (same : ∀ row other, R row other → f other = f row)
    (rel : Option.Rel R x y) : y.map f = x.map f := by
  cases rel with
  | none => rfl
  | some moved => exact congrArg some (same _ _ moved)

end Related
end Table
end Collector.Lib
