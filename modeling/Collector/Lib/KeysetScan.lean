import Collector.Lib.Table

/-!
Keyset scans. A reader walks through a table page by page; each page starts after the key of the
last row of the page before, and the scan ends at the first page that is not full. The keys may
move while the reader walks. Where rows stay and their keys only grow, no row that was there when
the scan began is missed.
-/

namespace Collector.Lib

section Page
variable {α κ : Type} [LinearOrder κ]

/-- A key that the reader has not reached. -/
def Beyond (after : Option κ) (k : κ) : Prop := ∀ seen ∈ after, seen < k

/-- A page holds rows the reader has not reached, and a row that it leaves out comes after a full
page. -/
structure Page (key : α → κ) (rows : List α) (after : Option κ) (limit : Nat) (page : List α) :
    Prop where
  sound : ∀ row ∈ page, row ∈ rows ∧ Beyond after (key row)
  cut : ∀ row ∈ rows, Beyond after (key row) →
    row ∈ page ∨ limit ≤ page.length ∧ ∀ chosen ∈ page, key chosen < key row

variable {key : α → κ}

/-- Sorting by a key that tells the rows apart and taking the first ones is a page. -/
theorem page_of_sorted {rows sorted : List α} {after : Option κ} (limit : Nat)
    (members : ∀ row, row ∈ sorted ↔ row ∈ rows ∧ Beyond after (key row)) (distinct : sorted.Nodup)
    (apart : ∀ row ∈ rows, ∀ other ∈ rows, key row = key other → row = other)
    (order : sorted.Pairwise fun row other => key row ≤ key other) :
    Page key rows after limit (sorted.take limit) := by
  constructor
  · intro row chosen
    exact (members row).mp (List.mem_of_mem_take chosen)
  · intro row present ahead
    have member : row ∈ sorted.take limit ++ sorted.drop limit := by
      rw [List.take_append_drop]
      exact (members row).mpr ⟨present, ahead⟩
    rcases List.mem_append.mp member with early | late
    · exact .inl early
    · have longer : 0 < (sorted.drop limit).length := List.length_pos_of_mem late
      rw [List.length_drop] at longer
      refine .inr ⟨?_, ?_⟩
      · rw [List.length_take]
        omega
      · intro chosen early
        rw [← List.take_append_drop limit sorted] at order distinct
        have below := (List.pairwise_append.mp order).2.2 chosen early row late
        apply below.lt_of_ne
        intro same
        have known := ((members chosen).mp (List.mem_of_mem_take early)).1
        have disjoint := List.disjoint_of_nodup_append distinct
        exact disjoint early (apart chosen known row present same ▸ late)

end Page

/-- `SELECT … WHERE p AND after < key ORDER BY key LIMIT n`. -/
def Table.keyset {α ι κ : Type} {ident : α → ι} [LinearOrder κ] (t : Table ident) (p : α → Bool)
    (key : α → κ) (after : Option κ) (limit : Nat) : List α :=
  t.select (fun row => p row && after.all fun seen => decide (seen < key row))
    (fun row other => key row ≤ key other) limit

theorem Table.page_keyset {α ι κ : Type} {ident : α → ι} [LinearOrder κ] (t : Table ident)
    (p : α → Bool) (key : α → κ) (after : Option κ) (limit : Nat)
    (apart : ∀ row other, key row = key other → ident row = ident other) :
    Page key (t.rows.filter p) after limit (t.keyset p key after limit) := by
  apply page_of_sorted
  · intro row
    rw [List.mem_insertionSort, List.mem_filter, List.mem_filter, Bool.and_eq_true, and_assoc]
    cases after <;> simp [Beyond]
  · rw [(List.perm_insertionSort _ _).nodup_iff]
    exact t.nodup.of_map.filter _
  · intro row present other also same
    exact t.eq_of_key_eq (List.mem_filter.mp present).1 (List.mem_filter.mp also).1
      (apart row other same)
  · exact List.pairwise_insertionSort _ _

section Scan
variable {σ α κ ι : Type} [LinearOrder κ]

/-- The pages of one reader. `move` is what the rest of the system may do between two pages. -/
inductive Scan (move : σ → σ → Prop) (read : σ → Option κ → List α → Prop) (key : α → κ)
    (limit : Nat) : σ → Option κ → List (List α) → Prop where
  | last {s : σ} {after : Option κ} {page : List α} (reads : read s after page)
      (short : page.length < limit) : Scan move read key limit s after [page]
  | next {s s' : σ} {after : Option κ} {page : List α} {final : α} {pages : List (List α)}
      (reads : read s after page) (full : limit ≤ page.length) (ends : final ∈ page.getLast?)
      (moved : move s s') (rest : Scan move read key limit s' (some (key final)) pages) :
      Scan move read key limit s after (page :: pages)

variable {move : σ → σ → Prop} {read : σ → Option κ → List α → Prop} {key : α → κ} {limit : Nat}
  {s : σ} {after : Option κ}

/-- A row that is tracked from page to page stays ahead of the reader until a page shows it. -/
theorem Scan.follows (inv : σ → Prop) (tracked : σ → α → Prop) (ident : α → ι)
    {pages : List (List α)}
    (cut : ∀ s after page row, inv s → read s after page → tracked s row → Beyond after (key row) →
      row ∈ page ∨ limit ≤ page.length ∧ ∀ chosen ∈ page, key chosen < key row)
    (kept : ∀ s s', inv s → move s s' → inv s' ∧
      ∀ row, tracked s row → ∃ row', tracked s' row' ∧ ident row' = ident row ∧ key row ≤ key row')
    (scan : Scan move read key limit s after pages) (valid : inv s) {row : α} (held : tracked s row)
    (ahead : Beyond after (key row)) : ∃ page ∈ pages, ∃ seen ∈ page, ident seen = ident row := by
  induction scan generalizing row with
  | @last s after page reads short =>
    rcases cut s after page row valid reads held ahead with shown | ⟨full, _⟩
    · exact ⟨page, List.mem_singleton_self page, row, shown, rfl⟩
    · omega
  | @next s s' after page final pages reads full ends moved rest ih =>
    rcases cut s after page row valid reads held ahead with shown | ⟨_, beyond⟩
    · exact ⟨page, List.mem_cons_self, row, shown, rfl⟩
    · obtain ⟨valid', still⟩ := kept s s' valid moved
      obtain ⟨row', held', same, grown⟩ := still row held
      have reached : key final < key row := beyond final (List.mem_of_getLast? ends)
      obtain ⟨later, member, seen, shown, found⟩ := ih valid' held' fun seen position => by
        cases position
        exact reached.trans_le grown
      exact ⟨later, List.mem_cons_of_mem page member, seen, shown, found.trans same⟩

/-- A row the reader has not reached stays ahead of it until a page shows it. -/
theorem Scan.complete (inv : σ → Prop) (rows : σ → List α) {ident : α → ι} {pages : List (List α)}
    (paged : ∀ s after page, inv s → read s after page → Page key (rows s) after limit page)
    (grows : ∀ s s', inv s → move s s' → inv s' ∧
      ∀ row ∈ rows s, ∃ row' ∈ rows s', ident row' = ident row ∧ key row ≤ key row')
    (scan : Scan move read key limit s after pages) (valid : inv s) {row : α}
    (present : row ∈ rows s) (ahead : Beyond after (key row)) :
    ∃ page ∈ pages, ∃ seen ∈ page, ident seen = ident row :=
  scan.follows inv (fun s row => row ∈ rows s) ident
    (fun s after page row valid reads => (paged s after page valid reads).cut row) grows valid present
    ahead

/-- The rows the reader has not reached. -/
def remaining (key : α → κ) (rows : List α) (after : Option κ) : List α :=
  rows.filter fun row => after.all fun seen => decide (seen < key row)

/-- Reaching a row leaves fewer rows ahead. -/
theorem remaining_lt {rows : List α} {final : α} (present : final ∈ rows)
    (ahead : Beyond after (key final)) :
    (remaining key rows (some (key final))).length < (remaining key rows after).length := by
  have narrower : remaining key rows (some (key final)) =
      (remaining key rows after).filter fun row => decide (key final < key row) := by
    rw [remaining, remaining, List.filter_filter]
    apply List.filter_congr
    intro row _
    by_cases later : key final < key row
    · cases after with
      | none => simp [later]
      | some seen => simp [later, (ahead seen rfl).trans later]
    · simp [later]
  rw [narrower, List.length_filter_lt_length_iff_exists]
  refine ⟨final, ?_, by simp⟩
  rw [remaining, List.mem_filter]
  cases after with
  | none => exact ⟨present, rfl⟩
  | some seen => exact ⟨present, decide_eq_true (ahead seen rfl)⟩

/-- When nothing moves any more, the reader comes to an end. -/
theorem Scan.exists_of_still (rows : σ → List α) (positive : 0 < limit) (still : move s s)
    (readable : ∀ after, ∃ page, read s after page ∧ Page key (rows s) after limit page) :
    ∃ pages, Scan move read key limit s after pages := by
  induction count : (remaining key (rows s) after).length using Nat.strong_induction_on
    generalizing after with
  | _ count' ih =>
    obtain ⟨page, reads, shows⟩ := readable after
    by_cases short : page.length < limit
    · exact ⟨[page], .last reads short⟩
    · have nonempty : page ≠ [] := by
        rintro rfl
        exact short positive
      obtain ⟨present, ahead⟩ := shows.sound _ (List.getLast_mem nonempty)
      have fewer := remaining_lt present ahead
      rw [count] at fewer
      obtain ⟨pages, rest⟩ := ih _ fewer rfl
      have ends := List.getLast?_eq_some_getLast nonempty
      exact ⟨page :: pages, .next reads (not_lt.mp short) ends still rest⟩

end Scan
end Collector.Lib
