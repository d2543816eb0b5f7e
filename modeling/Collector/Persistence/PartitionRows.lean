import Collector.Persistence.Partitions

/-!
Where the rows of a partitioned table are, and what a new partition needs. The ranges are those of months, so
no two of them overlap, and the only thing that stops PostgreSQL is a row of the month in DEFAULT.
-/

namespace Collector.Persistence.Partitions
open Collector.Lib

def MonthPartition.range (p : MonthPartition) : Range := ⟨p.name, p.month.start, p.month.next.start⟩

/-- The ranges are months of the table that do not overlap; a row is in the partition of its month, or in
DEFAULT if there is none. -/
structure Kept (parent : String) (t : PartitionedTable) : Prop where
  named : ∀ r ∈ t.ranges, ∃ m : Month, m.next.year ≤ 9999 ∧ r = (MonthPartition.mk parent m).range
  apart : t.ranges.Pairwise fun r s => r.upper ≤ s.lower ∨ s.upper ≤ r.lower
  inside : ∀ c ∈ t.children, ∀ at_ ∈ c.rows, c.range.covers at_ = true
  rest : ∃ rows, t.default = some rows ∧ ∀ at_ ∈ rows, ∀ r ∈ t.ranges, r.covers at_ = false

def Db.Kept (db : Db) : Prop := ∀ parent, Partitions.Kept parent (db.tables parent)

theorem Range.covers_iff {r : Range} {at_ : Time} : r.covers at_ = true ↔ r.lower ≤ at_ ∧ at_ < r.upper := by
  rw [Range.covers, Bool.and_eq_true, decide_eq_true_eq, decide_eq_true_eq]

theorem mem_ranges {t : PartitionedTable} {c : Child} (member : c ∈ t.children) : c.range ∈ t.ranges :=
  List.mem_map_of_mem member

section Place
variable {at_ : Time} {children next : List Child} {name : String}

theorem place_eq_none : place at_ children = none ↔ ∀ c ∈ children, c.range.covers at_ = false := by
  induction children with
  | nil => simp [place]
  | cons c rest ih =>
    by_cases covered : c.range.covers at_ = true
    · simp [place, covered]
    · simp [place, covered, ih]

/-- One partition gets the row. -/
theorem place_eq_some (placed : place at_ children = some (name, next)) :
    ∃ before c after, children = before ++ c :: after ∧ c.range.covers at_ = true ∧ c.range.name = name ∧
      next = before ++ { c with rows := c.rows ++ [at_] } :: after := by
  induction children generalizing next with
  | nil => cases placed
  | cons c rest ih =>
    unfold place at placed
    split at placed
    · rename_i covered
      cases placed
      exact ⟨[], c, rest, rfl, covered, rfl, rfl⟩
    · obtain ⟨⟨_, others⟩, below, same⟩ := Option.map_eq_some_iff.mp placed
      cases same
      obtain ⟨before, d, after, rfl, covered, named, rfl⟩ := ih below
      exact ⟨c :: before, d, after, rfl, covered, named, rfl⟩

end Place

section Insert
variable {db : Db} {parent : String} {at_ : Time}

theorem Db.put_same (db : Db) (parent : String) (t : PartitionedTable) :
    (db.put parent t).tables parent = t :=
  Function.update_self ..

theorem Db.put_other (db : Db) {parent other : String} (t : PartitionedTable) (different : other ≠ parent) :
    (db.put parent t).tables other = db.tables other :=
  Function.update_of_ne different ..

theorem Db.Kept.put (kept : db.Kept) {t : PartitionedTable} (own : Partitions.Kept parent t) :
    (db.put parent t).Kept := by
  intro other
  by_cases same : other = parent
  · subst same
    rwa [Db.put_same]
  · rw [Db.put_other db t same]
    exact kept other

/-- Of the ranges of a table one covers a timestamp at most. -/
theorem Kept.covering {t : PartitionedTable} (kept : Kept parent t) {r s : Range} (here : r ∈ t.ranges)
    (there : s ∈ t.ranges) (covers : r.covers at_ = true) (also : s.covers at_ = true) : r = s := by
  obtain ⟨m, _, rfl⟩ := kept.named r here
  obtain ⟨n, _, rfl⟩ := kept.named s there
  rw [Range.covers_iff] at covers also
  by_contra different
  have months : m ≠ n := fun same => different (by rw [same])
  dsimp only [MonthPartition.range] at covers also
  rcases Month.apart months with before | after
  · exact absurd (covers.2.trans_le (before.trans also.1)) (lt_irrefl at_)
  · exact absurd (also.2.trans_le (after.trans covers.1)) (lt_irrefl at_)

/-- A row is always taken, and goes to the partition that covers it. -/
theorem insertRow_kept (kept : db.Kept) (parent : String) (at_ : Time) : ∃ name next,
    insertRow db parent at_ = .ok (name, next) ∧ next.Kept ∧
      (∀ other, (next.tables other).ranges = (db.tables other).ranges) ∧
      ((next.tables parent).rows.Perm (at_ :: (db.tables parent).rows)) ∧
      (∀ other, other ≠ parent → next.tables other = db.tables other) ∧
      ∀ r ∈ (db.tables parent).ranges, r.covers at_ = true → name = r.name := by
  have own := kept parent
  obtain ⟨rows, default, rest⟩ := own.rest
  cases placed : place at_ (db.tables parent).children with
  | none =>
    have uncovered := place_eq_none.mp placed
    have taken : insertRow db parent at_ = .ok (parent ++ "_default",
        db.put parent { db.tables parent with default := some (rows ++ [at_]) }) := by
      simp only [insertRow, placed, default]
    refine ⟨_, _, taken, kept.put ⟨own.named, own.apart, own.inside, _, rfl, ?_⟩, ?_, ?_, ?_, ?_⟩
    · intro row member r range
      rcases List.mem_append.mp member with old | new
      · exact rest row old r range
      · obtain ⟨c, child, rfl⟩ := List.mem_map.mp range
        rw [List.mem_singleton.mp new]
        exact uncovered c child
    · intro other
      by_cases same : other = parent
      · subst same
        rw [Db.put_same]
        rfl
      · rw [Db.put_other db _ same]
    · rw [Db.put_same]
      simp only [PartitionedTable.rows, default, Option.getD_some]
      rw [← List.append_assoc]
      exact List.perm_append_singleton _ _
    · exact fun other different => Db.put_other db _ different
    · intro r range covers
      obtain ⟨c, child, rfl⟩ := List.mem_map.mp range
      rw [uncovered c child] at covers
      cases covers
  | some placement =>
    obtain ⟨name, next⟩ := placement
    obtain ⟨before, c, after, split, covered, named, rfl⟩ := place_eq_some placed
    have same : (before ++ { c with rows := c.rows ++ [at_] } :: after).map Child.range =
        (db.tables parent).ranges := by
      rw [PartitionedTable.ranges, split]
      simp
    have taken : insertRow db parent at_ = .ok (name, db.put parent { db.tables parent with
        children := before ++ { c with rows := c.rows ++ [at_] } :: after }) := by
      simp only [insertRow, placed]
    refine ⟨_, _, taken, kept.put ⟨?_, ?_, ?_, rows, default, ?_⟩, ?_, ?_, ?_, ?_⟩
    · rw [PartitionedTable.ranges, same]
      exact own.named
    · rw [PartitionedTable.ranges, same]
      exact own.apart
    · intro d child row member
      have inside := own.inside
      rw [split] at inside
      simp only [List.mem_append, List.mem_cons] at child inside
      rcases child with old | rfl | old
      · exact inside d (.inl old) row member
      · rcases List.mem_append.mp member with old | new
        · exact inside c (.inr (.inl rfl)) row old
        · rw [List.mem_singleton.mp new]
          exact covered
      · exact inside d (.inr (.inr old)) row member
    · rw [PartitionedTable.ranges, same]
      exact rest
    · intro other
      by_cases own : other = parent
      · subst own
        rw [Db.put_same, PartitionedTable.ranges, same]
      · rw [Db.put_other db _ own]
    · rw [Db.put_same]
      have middle : ((before.flatMap Child.rows ++ c.rows) ++ at_ :: (after.flatMap Child.rows ++
          (db.tables parent).default.getD [])).Perm _ := List.perm_middle
      simpa [PartitionedTable.rows, split] using middle
    · exact fun other different => Db.put_other db _ different
    · intro r range covers
      have member : c.range ∈ (db.tables parent).ranges := mem_ranges (by rw [split]; simp)
      rw [← named, own.covering range member covers covered]

end Insert

section Ensure
variable {db : Db} {p : MonthPartition}

/-- DEFAULT has no row of the month. -/
def Db.Clear (db : Db) (p : MonthPartition) : Prop :=
  ∀ at_ ∈ (db.tables p.parent).default.getD [], p.range.covers at_ = false

/-- Both bounds are dates. -/
def MonthPartition.Datable (p : MonthPartition) : Prop := p.month.next.year ≤ 9999

def Db.add (db : Db) (p : MonthPartition) : Db :=
  db.put p.parent
    { db.tables p.parent with children := (db.tables p.parent).children ++ [⟨p.range, []⟩] }

theorem exists_iff (kept : db.Kept) (listed : p.parent ∈ partitionedTables) :
    db.exists p.name = true ↔ p.range ∈ (db.tables p.parent).ranges := by
  rw [Db.exists, List.any_eq_true]
  constructor
  · rintro ⟨parent, known, found⟩
    obtain ⟨r, member, named⟩ := List.any_eq_true.mp found
    obtain ⟨m, _, rfl⟩ := (kept parent).named r member
    have same : MonthPartition.mk parent m = p :=
      MonthPartition.name_injective known listed (of_decide_eq_true named)
    subst same
    exact member
  · intro member
    exact ⟨p.parent, listed, List.any_eq_true.mpr ⟨p.range, member, decide_eq_true rfl⟩⟩

theorem Month.year_le_next (m : Month) : m.year ≤ m.next.year := by
  unfold Month.next
  split
  · exact Nat.le_succ _
  · exact le_rfl

theorem Kept.datable {parent : String} {t : PartitionedTable} (kept : Kept parent t) {m : Month}
    (member : (MonthPartition.mk parent m).range ∈ t.ranges) : m.next.year ≤ 9999 := by
  obtain ⟨n, bound, same⟩ := kept.named _ member
  have starts : m.start = n.start := congrArg Range.lower same
  have months : m = n := by
    by_contra different
    rcases Month.apart different with before | after
    · rw [← starts] at before
      exact absurd (m.start_lt_next.trans_le before) (lt_irrefl _)
    · rw [starts] at after
      exact absurd (n.start_lt_next.trans_le after) (lt_irrefl _)
  rwa [months]

/-- PostgreSQL takes the new partition exactly if its bounds are dates and DEFAULT has no row of it: it
never overlaps another one. -/
theorem createPartition_eq_ok (kept : db.Kept) (listed : p.parent ∈ partitionedTables)
    (missing : db.exists p.name = false) {next : Db} :
    createPartition db p = .ok next ↔ p.Datable ∧ db.Clear p ∧ next = db.add p := by
  have absent : p.range ∉ (db.tables p.parent).ranges := by
    rw [← exists_iff kept listed, missing]
    simp
  have free : ((db.tables p.parent).ranges.all fun r =>
      decide (p.month.next.start ≤ r.lower) || decide (r.upper ≤ p.month.start)) = true := by
    rw [List.all_eq_true]
    intro r member
    obtain ⟨m, _, rfl⟩ := (kept p.parent).named r member
    have different : p.month ≠ m := by
      intro same
      apply absent
      rw [← same] at member
      exact member
    rw [Bool.or_eq_true, decide_eq_true_eq, decide_eq_true_eq]
    exact Month.apart different
  simp only [createPartition, MonthPartition.lower, MonthPartition.upper, date, Except.bind_eq_ok,
    ensure_eq_ok, pure, Except.pure, Except.ok.injEq, decide_eq_true_eq, missing, Bool.false_eq_true,
    if_false]
  constructor
  · rintro ⟨_, ⟨_, _, rfl⟩, _, ⟨_, datable, rfl⟩, _, _, _, _, _, clear, rfl⟩
    refine ⟨datable, fun row member => ?_, rfl⟩
    simpa [MonthPartition.range] using List.all_eq_true.mp clear row member
  · rintro ⟨datable, clear, rfl⟩
    refine ⟨_, ⟨(), p.month.year_le_next.trans datable, rfl⟩, _, ⟨(), datable, rfl⟩, ?_⟩
    refine ⟨(), p.month.start_lt_next, (), free, (), List.all_eq_true.mpr fun row member => ?_, rfl⟩
    simpa [MonthPartition.range] using clear row member

theorem ranges_add (db : Db) (p : MonthPartition) :
    ((db.add p).tables p.parent).ranges = (db.tables p.parent).ranges ++ [p.range] := by
  rw [Db.add, Db.put_same]
  simp [PartitionedTable.ranges]

theorem default_add (db : Db) (p : MonthPartition) (parent : String) :
    ((db.add p).tables parent).default = (db.tables parent).default := by
  by_cases same : parent = p.parent
  · subst same
    rw [Db.add, Db.put_same]
  · rw [Db.add, Db.put_other db _ same]

theorem rows_add (db : Db) (p : MonthPartition) (parent : String) :
    ((db.add p).tables parent).rows = (db.tables parent).rows := by
  by_cases same : parent = p.parent
  · subst same
    rw [Db.add, Db.put_same]
    simp [PartitionedTable.rows]
  · rw [Db.add, Db.put_other db _ same]

theorem Db.Kept.add (kept : db.Kept) (absent : p.range ∉ (db.tables p.parent).ranges) (datable : p.Datable)
    (clear : db.Clear p) : (db.add p).Kept := by
  have own := kept p.parent
  obtain ⟨rows, default, rest⟩ := own.rest
  have ranges := ranges_add db p
  rw [Db.add, Db.put_same] at ranges
  apply kept.put
  refine ⟨?_, ?_, ?_, rows, default, ?_⟩
  · rw [ranges]
    intro r member
    rcases List.mem_append.mp member with old | new
    · exact own.named r old
    · exact ⟨p.month, datable, List.mem_singleton.mp new⟩
  · rw [ranges, List.pairwise_append]
    refine ⟨own.apart, List.pairwise_singleton _ _, fun r old s new => ?_⟩
    obtain ⟨m, _, rfl⟩ := own.named r old
    rw [List.mem_singleton.mp new]
    apply Month.apart
    rintro rfl
    exact absent old
  · intro c child row member
    rcases List.mem_append.mp child with old | new
    · exact own.inside c old row member
    · rw [List.mem_singleton.mp new] at member
      cases member
  · rw [ranges]
    intro row member r known
    rcases List.mem_append.mp known with old | new
    · exact rest row member r old
    · rw [List.mem_singleton.mp new]
      apply clear row
      rw [default]
      exact member

theorem Kept.clear (kept : db.Kept) (member : p.range ∈ (db.tables p.parent).ranges) : db.Clear p := by
  obtain ⟨rows, default, rest⟩ := (kept p.parent).rest
  intro row inside
  rw [default] at inside
  exact rest row inside _ member

end Ensure

end Collector.Persistence.Partitions
