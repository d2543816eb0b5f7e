import Collector.Lib.Table

/-!
A table written like a `dict`: assignments, where the last of a key counts and its place is that of
the first, and insertions, where the first of a key wins.
-/

namespace Collector.Lib.Table
variable {α κ : Type} {key : α → κ} [DecidableEq κ]

/-- `dict[key] = row`: a known key keeps its place. -/
def set (t : Table key) (row : α) : Table key := if key row ∈ t.keys then t.put row else t.insert row

theorem find?_set (t : Table key) (row : α) (k : κ) :
    (t.set row).find? k = if k = key row then some row else t.find? k := by
  unfold set
  split
  · rename_i known
    obtain ⟨old, found⟩ := (t.mem_keys_iff _).mp known
    exact t.find?_put row found k
  · rename_i fresh
    rw [find?_insert t row fresh]
    simp only [eq_comm]

theorem mem_set {t : Table key} {row other : α} (member : other ∈ (t.set row).rows) :
    other = row ∨ other ∈ t.rows := by
  have found := (t.set row).find?_of_mem member
  rw [find?_set] at found
  split at found
  · exact .inl (Option.some.inj found).symm
  · exact .inr ((t.find?_eq_some _ _).mp found).1

theorem length_set (t : Table key) (row : α) :
    (t.set row).rows.length = if key row ∈ t.keys then t.rows.length else t.rows.length + 1 := by
  unfold set
  split
  · rw [put, rows_update, List.length_map]
  · rename_i fresh
    rw [rows_insert t row fresh, List.length_append, List.length_singleton]

/-- Assignments one after the other. -/
def setMany (t : Table key) (rows : List α) : Table key := rows.foldl set t

theorem mem_setMany {rows : List α} {t : Table key} {row : α} (member : row ∈ (t.setMany rows).rows) :
    row ∈ rows ∨ row ∈ t.rows := by
  induction rows generalizing t with
  | nil => exact .inr member
  | cons first rows ih =>
    rcases ih member with later | old
    · exact .inl (List.mem_cons_of_mem _ later)
    · rcases mem_set old with rfl | before
      · exact .inl List.mem_cons_self
      · exact .inr before

theorem length_setMany (t : Table key) (rows : List α) :
    (t.setMany rows).rows.length ≤ t.rows.length + rows.length := by
  induction rows generalizing t with
  | nil => exact le_rfl
  | cons first rows ih =>
    have step := ih (t.set first)
    have one := t.length_set first
    rw [List.length_cons]
    change ((t.set first).setMany rows).rows.length ≤ _
    split at one <;> omega

/-- As many keys as assignments: none was assigned twice. -/
theorem rows_setMany {t : Table key} {rows : List α}
    (all : (t.setMany rows).rows.length = t.rows.length + rows.length) :
    (t.setMany rows).rows = t.rows ++ rows := by
  induction rows generalizing t with
  | nil => rw [List.append_nil]; rfl
  | cons first rows ih =>
    have bound := (t.set first).length_setMany rows
    have one := t.length_set first
    have whole : ((t.set first).setMany rows).rows.length = t.rows.length + (rows.length + 1) := all
    split at one
    · omega
    · rename_i fresh
      have step := ih (t := t.set first) (by omega)
      change ((t.set first).setMany rows).rows = _
      rw [step, set, if_neg fresh, rows_insert t first fresh, List.append_assoc, List.singleton_append]

theorem find?_setMany_of_not_mem {rows : List α} {t : Table key} {k : κ} (absent : k ∉ rows.map key) :
    (t.setMany rows).find? k = t.find? k := by
  induction rows generalizing t with
  | nil => rfl
  | cons first rows ih =>
    rw [List.map_cons, List.mem_cons, not_or] at absent
    exact (ih absent.2).trans ((t.find?_set first k).trans (if_neg absent.1))

/-- An assigned key has the value of one of its assignments. -/
theorem find?_setMany {rows : List α} (t : Table key) {k : κ} (assigned : k ∈ rows.map key) :
    ∃ row ∈ rows, key row = k ∧ (t.setMany rows).find? k = some row := by
  induction rows generalizing t with
  | nil => cases assigned
  | cons first rows ih =>
    by_cases later : k ∈ rows.map key
    · obtain ⟨row, member, same, found⟩ := ih (t.set first) later
      exact ⟨row, List.mem_cons_of_mem _ member, same, found⟩
    · have here : k = key first := (List.mem_cons.mp assigned).resolve_right later
      refine ⟨first, List.mem_cons_self, here.symm, ?_⟩
      exact (find?_setMany_of_not_mem later).trans ((t.find?_set first k).trans (if_pos here))

/-- Insertions one after the other; the first of a key wins. -/
def insertMany (t : Table key) (rows : List α) : Table key := rows.foldl insert t

theorem mem_insert {t : Table key} {row other : α} (member : other ∈ (t.insert row).rows) :
    other = row ∨ other ∈ t.rows := by
  unfold insert at member
  split at member
  · exact .inr member
  · rw [List.mem_append, List.mem_singleton] at member
    exact member.symm

theorem mem_insertMany {rows : List α} {t : Table key} {row : α}
    (member : row ∈ (t.insertMany rows).rows) : row ∈ rows ∨ row ∈ t.rows := by
  induction rows generalizing t with
  | nil => exact .inr member
  | cons first rows ih =>
    rcases ih member with later | old
    · exact .inl (List.mem_cons_of_mem _ later)
    · rcases mem_insert old with rfl | before
      · exact .inl List.mem_cons_self
      · exact .inr before

theorem find?_insert_of_some {t : Table key} {row old : α} {k : κ} (known : t.find? k = some old) :
    (t.insert row).find? k = some old := by
  unfold insert
  split
  · exact known
  · rename_i fresh
    have other : k ≠ key row := by
      intro same
      exact fresh ((t.mem_keys_iff _).mpr ⟨old, same ▸ known⟩)
    have step := t.find?_insert_of_ne row other
    rw [insert, dif_neg fresh] at step
    exact step.trans known

/-- A key keeps its row, and a free key gets the first row that is inserted under it. -/
theorem find?_insertMany (t : Table key) (rows : List α) (k : κ) :
    (t.insertMany rows).find? k = (t.find? k).or (rows.find? fun row => decide (key row = k)) := by
  induction rows generalizing t with
  | nil => rw [List.find?_nil, Option.or_none]; rfl
  | cons first rows ih =>
    change ((t.insert first).insertMany rows).find? k = _
    rw [ih]
    cases found : t.find? k with
    | some old => rw [find?_insert_of_some found, Option.some_or, Option.some_or]
    | none =>
      rw [Option.none_or]
      by_cases here : key first = k
      · have fresh : key first ∉ t.keys := (t.find?_eq_none _).mp (here ▸ found)
        rw [find?_insert t first fresh, if_pos here, List.find?_cons_of_pos (by simpa using here),
          Option.some_or]
      · rw [find?_insert_of_ne t first (Ne.symm here), found, Option.none_or,
          List.find?_cons_of_neg (by simpa using here)]

/-- The rows of a table filled by insertions are the first of their keys. -/
theorem mem_insertMany_empty {rows : List α} {row : α} :
    row ∈ ((∅ : Table key).insertMany rows).rows ↔
      (rows.find? fun other => decide (key other = key row)) = some row := by
  have first := find?_insertMany (∅ : Table key) rows (key row)
  rw [find?_empty, Option.none_or] at first
  rw [← first, find?_eq_some]
  simp

end Collector.Lib.Table
