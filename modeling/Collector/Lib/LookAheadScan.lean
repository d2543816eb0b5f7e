import Collector.Lib.KeysetScan

/-!
Keyset scans with a row of look-ahead. A page shows the next rows and, when there is one more,
hands on the key of its last row; the reader stops at the first page that hands on nothing. Rows
may be added between two pages.
-/

namespace Collector.Lib

section Page
variable {α κ : Type} [LinearOrder κ]

/-- A page in the order of the keys. The cursor that it hands on is the key of its last row, and a
row that it leaves out comes after that cursor. -/
structure PeekPage (key : α → κ) (rows : List α) (after : Option κ) (page : List α)
    (next : Option κ) : Prop where
  sound : ∀ row ∈ page, row ∈ rows ∧ Beyond after (key row)
  order : page.Pairwise fun row other => key row < key other
  cut : ∀ row ∈ rows, Beyond after (key row) → row ∈ page ∨ ∃ k ∈ next, k < key row
  handed : ∀ k ∈ next, (∃ row ∈ page, key row = k) ∧ ∀ row ∈ page, key row ≤ k

variable {key : α → κ}

/-- What is shown of rows that are in order, and the cursor when one more was found. -/
def lookAhead (key : α → κ) (limit : Nat) (found : List α) : List α × Option κ :=
  (found.take limit, if limit < found.length then (found.take limit).getLast?.map key else none)

/-- The first rows of all that the reader has not reached are a page. -/
theorem peekPage_of_sorted {rows sorted : List α} {after : Option κ} {limit : Nat}
    (positive : 0 < limit)
    (members : ∀ row, row ∈ sorted ↔ row ∈ rows ∧ Beyond after (key row))
    (order : sorted.Pairwise fun row other => key row < key other) :
    PeekPage key rows after (lookAhead key limit (sorted.take (limit + 1))).1
      (lookAhead key limit (sorted.take (limit + 1))).2 := by
  have shown : (lookAhead key limit (sorted.take (limit + 1))).1 = sorted.take limit := by
    rw [lookAhead, List.take_take, min_eq_left (Nat.le_succ limit)]
  have handed : (lookAhead key limit (sorted.take (limit + 1))).2 =
      if limit < sorted.length then (sorted.take limit).getLast?.map key else none := by
    have one_more : limit < (sorted.take (limit + 1)).length ↔ limit < sorted.length := by
      rw [List.length_take]
      omega
    rw [lookAhead, List.take_take, min_eq_left (Nat.le_succ limit)]
    exact if_congr one_more rfl rfl
  rw [shown, handed]
  have pieces := order
  rw [← List.take_append_drop limit sorted, List.pairwise_append] at pieces
  obtain ⟨first, _, between⟩ := pieces
  constructor
  · intro row chosen
    exact (members row).mp (List.mem_of_mem_take chosen)
  · exact first
  · intro row present ahead
    have member : row ∈ sorted.take limit ++ sorted.drop limit := by
      rw [List.take_append_drop]
      exact (members row).mpr ⟨present, ahead⟩
    rcases List.mem_append.mp member with early | late
    · exact .inl early
    · have longer : 0 < (sorted.drop limit).length := List.length_pos_of_mem late
      rw [List.length_drop] at longer
      have nonempty : sorted.take limit ≠ [] := by
        rw [← List.length_pos_iff, List.length_take]
        omega
      refine .inr ⟨key ((sorted.take limit).getLast nonempty), ?_, ?_⟩
      · rw [if_pos (by omega), List.getLast?_eq_some_getLast nonempty]
        rfl
      · exact between _ (List.getLast_mem nonempty) row late
  · intro k given
    rw [Option.mem_def, Option.ite_none_right_eq_some, Option.map_eq_some_iff] at given
    obtain ⟨_, last, ends, rfl⟩ := given
    refine ⟨⟨last, List.mem_of_getLast? ends, rfl⟩, ?_⟩
    intro row chosen
    obtain ⟨before, split⟩ := List.getLast?_eq_some_iff.mp ends
    rw [split] at chosen first
    rcases List.mem_append.mp chosen with early | same
    · exact ((List.pairwise_append.mp first).2.2 row early last (by simp)).le
    · rw [List.mem_singleton.mp same]

/-- A page of rows is a page of what is made of them, when that keeps the keys. -/
theorem PeekPage.map {β : Type} {key' : β → κ} {f : α → β} (keeps : ∀ row, key' (f row) = key row)
    {rows page : List α} {after next : Option κ} (shows : PeekPage key rows after page next) :
    PeekPage key' (rows.map f) after (page.map f) next := by
  constructor
  · intro made member
    obtain ⟨row, chosen, rfl⟩ := List.mem_map.mp member
    obtain ⟨present, ahead⟩ := shows.sound row chosen
    exact ⟨List.mem_map_of_mem present, (keeps row).symm ▸ ahead⟩
  · rw [List.pairwise_map]
    exact shows.order.imp fun below => by rwa [keeps, keeps]
  · intro made member ahead
    obtain ⟨row, present, rfl⟩ := List.mem_map.mp member
    rw [keeps] at ahead ⊢
    exact (shows.cut row present ahead).imp_left List.mem_map_of_mem
  · intro k given
    obtain ⟨⟨row, chosen, same⟩, most⟩ := shows.handed k given
    refine ⟨⟨f row, List.mem_map_of_mem chosen, (keeps row).trans same⟩, ?_⟩
    intro made member
    obtain ⟨other, also, rfl⟩ := List.mem_map.mp member
    rw [keeps]
    exact most other also

end Page

section Scan
variable {σ α κ : Type} [LinearOrder κ]

/-- The pages of one reader, from the state in which it starts to the state of its last page. -/
inductive PeekScan (move : σ → σ → Prop) (read : σ → Option κ → List α → Option κ → Prop) :
    σ → Option κ → List (List α) → σ → Prop where
  | last {s : σ} {after : Option κ} {page : List α} (reads : read s after page none) :
      PeekScan move read s after [page] s
  | next {s s' final : σ} {after : Option κ} {page : List α} {k : κ} {pages : List (List α)}
      (reads : read s after page (some k)) (moved : move s s')
      (rest : PeekScan move read s' (some k) pages final) :
      PeekScan move read s after (page :: pages) final

variable {move : σ → σ → Prop} {read : σ → Option κ → List α → Option κ → Prop} {key : α → κ}
  {s final : σ} {after : Option κ} {pages : List (List α)}

/-- `fit` is what is known of the cursors that pages hand on. -/
theorem PeekScan.shows (contents : σ → List α) (fit : κ → Prop)
    (paged : ∀ s after page next, (∀ k ∈ after, fit k) → read s after page next →
      PeekPage key (contents s) after page next ∧ ∀ k ∈ next, fit k)
    (grows : ∀ s s', move s s' → contents s ⊆ contents s')
    (scan : PeekScan move read s after pages final) (started : ∀ k ∈ after, fit k) :
    contents s ⊆ contents final ∧
      (pages.flatten.Pairwise fun row other => key row < key other) ∧
      (∀ row ∈ pages.flatten, row ∈ contents final ∧ Beyond after (key row)) ∧
      ∀ row ∈ contents s, Beyond after (key row) → row ∈ pages.flatten := by
  induction scan with
  | @last s after page reads =>
    obtain ⟨shows, _⟩ := paged s after page none started reads
    simp only [List.flatten_cons, List.flatten_nil, List.append_nil]
    refine ⟨List.Subset.refl _, shows.order, shows.sound, ?_⟩
    intro row present ahead
    rcases shows.cut row present ahead with shown | ⟨_, given, _⟩
    · exact shown
    · cases given
  | @next s s' final after page k pages reads moved rest ih =>
    obtain ⟨shows, fits⟩ := paged s after page (some k) started reads
    obtain ⟨⟨last, chosen, same⟩, most⟩ := shows.handed k rfl
    obtain ⟨kept, order, sound, complete⟩ := ih fits
    have known : contents s ⊆ contents final := List.Subset.trans (grows s s' moved) kept
    rw [List.flatten_cons]
    refine ⟨known, ?_, ?_, ?_⟩
    · refine List.pairwise_append.mpr ⟨shows.order, order, ?_⟩
      intro row shown later member
      exact (most row shown).trans_lt ((sound later member).2 k rfl)
    · intro row member
      rcases List.mem_append.mp member with shown | later
      · exact ⟨known (shows.sound row shown).1, (shows.sound row shown).2⟩
      · refine ⟨(sound row later).1, ?_⟩
        intro seen position
        have reached : seen < k := same ▸ (shows.sound last chosen).2 seen position
        exact reached.trans ((sound row later).2 k rfl)
    · intro row present ahead
      rcases shows.cut row present ahead with shown | ⟨_, given, beyond⟩
      · exact List.mem_append_left _ shown
      · cases given
        apply List.mem_append_right
        apply complete row (grows s s' moved present)
        intro _ position
        cases position
        exact beyond

/-- When nothing is added any more, the reader comes to an end. -/
theorem PeekScan.exists_of_still (contents : σ → List α) (fit : κ → Prop)
    (paged : ∀ s after page next, (∀ k ∈ after, fit k) → read s after page next →
      PeekPage key (contents s) after page next ∧ ∀ k ∈ next, fit k)
    (readable : ∀ after, ∃ page next, read s after page next) (still : move s s)
    (started : ∀ k ∈ after, fit k) : ∃ pages, PeekScan move read s after pages s := by
  induction count : (remaining key (contents s) after).length using Nat.strong_induction_on
    generalizing after with
  | _ count' ih =>
    obtain ⟨page, next, reads⟩ := readable after
    obtain ⟨shows, fits⟩ := paged s after page next started reads
    cases next with
    | none => exact ⟨[page], .last reads⟩
    | some k =>
      obtain ⟨⟨last, chosen, rfl⟩, _⟩ := shows.handed k rfl
      obtain ⟨present, ahead⟩ := shows.sound last chosen
      have fewer := remaining_lt present ahead
      rw [count] at fewer
      obtain ⟨pages, rest⟩ := ih _ fewer fits rfl
      exact ⟨page :: pages, .next reads still rest⟩

end Scan
end Collector.Lib
