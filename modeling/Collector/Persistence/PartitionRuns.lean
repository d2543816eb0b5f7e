import Collector.Persistence.PartitionRows

/-!
Runs of inserts and of `ensure_month_partitions`. A call deals with one month after the other; what is there
after some of them is kept as one invariant of both of its loops.
-/

namespace Collector.Persistence.Partitions
open Collector.Lib

section Ensure
variable {base db : Db} {seen : List MonthPartition} {done next : List String × Db} {p : MonthPartition}

/-- What is there after some of the months have been dealt with. -/
structure Progress (base : Db) (seen : List MonthPartition) (done : List String × Db) : Prop where
  kept : done.2.Kept
  default : ∀ parent, (done.2.tables parent).default = (base.tables parent).default
  rows : ∀ parent, (done.2.tables parent).rows = (base.tables parent).rows
  once : done.1.Nodup
  created : ∀ name, name ∈ done.1 ↔ done.2.exists name = true ∧ base.exists name = false
  there : ∀ name, done.2.exists name = true ↔ base.exists name = true ∨ ∃ p ∈ seen, p.name = name

theorem Db.exists_add (db : Db) (listed : p.parent ∈ partitionedTables) (name : String) :
    (db.add p).exists name = true ↔ db.exists name = true ∨ p.name = name := by
  have each (parent : String) :
      (((db.add p).tables parent).ranges.any fun r => decide (r.name = name)) = true ↔
        ((db.tables parent).ranges.any fun r => decide (r.name = name)) = true ∨
          parent = p.parent ∧ p.name = name := by
    by_cases same : parent = p.parent
    · subst same
      rw [ranges_add]
      simp [MonthPartition.range]
    · rw [Db.add, Db.put_other db _ same]
      simp [same]
  simp only [Db.exists, List.any_eq_true (p := fun parent => List.any _ _), each]
  constructor
  · rintro ⟨parent, known, found | ⟨_, same⟩⟩
    · exact .inl ⟨parent, known, found⟩
    · exact .inr same
  · rintro (⟨parent, known, found⟩ | same)
    · exact ⟨parent, known, .inl found⟩
    · exact ⟨p.parent, listed, .inr ⟨rfl, same⟩⟩

theorem Progress.skip (progress : Progress base seen done) (here : done.2.exists p.name = true) :
    Progress base (seen ++ [p]) done := by
  refine { progress with there := fun name => ?_ }
  rw [progress.there]
  constructor
  · rintro (old | ⟨q, member, named⟩)
    · exact .inl old
    · exact .inr ⟨q, List.mem_append_left _ member, named⟩
  · rintro (old | ⟨q, member, rfl⟩)
    · exact .inl old
    · rcases List.mem_append.mp member with old | new
      · exact .inr ⟨q, old, rfl⟩
      · rw [List.mem_singleton.mp new]
        exact (progress.there _).mp here

theorem Progress.add (progress : Progress base seen done) (listed : p.parent ∈ partitionedTables)
    (missing : done.2.exists p.name = false) (datable : p.Datable) (clear : done.2.Clear p) :
    Progress base (seen ++ [p]) (done.1 ++ [p.name], done.2.add p) := by
  have absent : p.range ∉ (done.2.tables p.parent).ranges := by
    rw [← exists_iff progress.kept listed, missing]
    simp
  have unborn : base.exists p.name = false := by
    by_contra known
    rw [(progress.there p.name).mpr (.inl (by simpa using known))] at missing
    cases missing
  refine ⟨progress.kept.add absent datable clear, ?_, ?_, ?_, ?_, ?_⟩
  · exact fun parent => (default_add done.2 p parent).trans (progress.default parent)
  · exact fun parent => (rows_add done.2 p parent).trans (progress.rows parent)
  · rw [List.nodup_append]
    refine ⟨progress.once, List.nodup_singleton _, fun name old other new => ?_⟩
    rw [List.mem_singleton.mp new]
    rintro rfl
    rw [((progress.created _).mp old).1] at missing
    cases missing
  · intro name
    rw [List.mem_append, List.mem_singleton, progress.created, Db.exists_add done.2 listed]
    constructor
    · rintro (⟨found, fresh⟩ | rfl)
      · exact ⟨.inl found, fresh⟩
      · exact ⟨.inr rfl, unborn⟩
    · rintro ⟨found | same, fresh⟩
      · exact .inl ⟨found, fresh⟩
      · exact .inr same.symm
  · intro name
    rw [Db.exists_add done.2 listed, progress.there]
    constructor
    · rintro ((old | ⟨q, member, named⟩) | same)
      · exact .inl old
      · exact .inr ⟨q, List.mem_append_left _ member, named⟩
      · exact .inr ⟨p, List.mem_append_right _ (List.mem_singleton_self p), same⟩
    · rintro (old | ⟨q, member, named⟩)
      · exact .inl (.inl old)
      · rcases List.mem_append.mp member with old | new
        · exact .inl (.inr ⟨q, old, named⟩)
        · rw [List.mem_singleton.mp new] at named
          exact .inr named

theorem clear_congr {other : Db}
    (same : ∀ parent, (other.tables parent).default = (db.tables parent).default) :
    other.Clear p ↔ db.Clear p := by
  rw [Db.Clear, Db.Clear, same]

/-- One month: it is there, or it can be created. -/
theorem Progress.month (progress : Progress base seen done) (listed : p.parent ∈ partitionedTables) :
    ((∃ next, ensureMonth done p = .ok next) ↔ p.Datable ∧ base.Clear p) ∧
      ∀ next, ensureMonth done p = .ok next → Progress base (seen ++ [p]) next := by
  unfold ensureMonth
  cases here : done.2.exists p.name with
  | true =>
    rw [if_pos rfl]
    have member := (exists_iff progress.kept listed).mp here
    refine ⟨⟨fun _ => ⟨(progress.kept p.parent).datable member, ?_⟩, fun _ => ⟨done, rfl⟩⟩, ?_⟩
    · rw [← clear_congr progress.default]
      exact Kept.clear progress.kept member
    · intro next same
      cases same
      exact progress.skip here
  | false =>
    simp only [Bool.false_eq_true, if_false, Except.bind_eq_ok,
      createPartition_eq_ok progress.kept listed here, pure, Except.pure, Except.ok.injEq]
    rw [← clear_congr progress.default]
    constructor
    · constructor
      · rintro ⟨_, _, ⟨datable, clear, _⟩, _⟩
        exact ⟨datable, clear⟩
      · rintro ⟨datable, clear⟩
        exact ⟨_, _, ⟨datable, clear, rfl⟩, rfl⟩
    · rintro next ⟨_, ⟨datable, clear, rfl⟩, rfl⟩
      exact progress.add listed here datable clear

theorem Progress.months (progress : Progress base seen done) (ps : List MonthPartition)
    (listed : ∀ p ∈ ps, p.parent ∈ partitionedTables) :
    ((∃ next, ps.foldlM ensureMonth done = .ok next) ↔ ∀ p ∈ ps, p.Datable ∧ base.Clear p) ∧
      ∀ next, ps.foldlM ensureMonth done = .ok next → Progress base (seen ++ ps) next := by
  induction ps generalizing seen done with
  | nil =>
    refine ⟨⟨fun _ => by simp, fun _ => ⟨done, rfl⟩⟩, fun next same => ?_⟩
    cases same
    rwa [List.append_nil]
  | cons p ps ih =>
    rw [List.forall_mem_cons] at listed
    have month := progress.month listed.1
    simp only [List.foldlM_cons, Except.bind_eq_ok, List.forall_mem_cons]
    constructor
    · constructor
      · rintro ⟨last, next, first, rest⟩
        exact ⟨month.1.mp ⟨next, first⟩, (ih (month.2 next first) listed.2).1.mp ⟨last, rest⟩⟩
      · rintro ⟨here, others⟩
        obtain ⟨next, first⟩ := month.1.mpr here
        obtain ⟨last, rest⟩ := (ih (month.2 next first) listed.2).1.mpr others
        exact ⟨last, next, first, rest⟩
    · rintro last ⟨next, first, rest⟩
      have whole := (ih (month.2 next first) listed.2).2 last rest
      rwa [List.append_assoc] at whole

end Ensure

/-- The partitions that a call asks for. -/
def wanted (tables : List String) (monthsAhead : Int) (start : Month) : List MonthPartition :=
  tables.flatMap fun table => (monthsFrom start monthsAhead.toNat).map (MonthPartition.mk table)

/-- The call can be carried out for a table. -/
def Db.Ready (db : Db) (monthsAhead : Int) (start : Month) (table : String) : Prop :=
  table ∈ partitionedTables ∧ 0 ≤ monthsAhead ∧ ∀ m ∈ monthsFrom start monthsAhead.toNat,
    (MonthPartition.mk table m).Datable ∧ db.Clear ⟨table, m⟩

section Runs
variable {db base later : Db} {tables : List String} {monthsAhead : Int} {start : Month}
  {seen : List MonthPartition} {done : List String × Db} {history : List (Entry Call Answer PartitionError)}

theorem Progress.table (progress : Progress base seen done) (monthsAhead : Int) (start : Month)
    (table : String) :
    ((∃ next, ensureTable monthsAhead start done table = .ok next) ↔ base.Ready monthsAhead start table) ∧
      ∀ next, ensureTable monthsAhead start done table = .ok next →
        Progress base (seen ++ (monthsFrom start monthsAhead.toNat).map (MonthPartition.mk table)) next := by
  simp only [ensureTable, monthPartitions, Except.bind_eq_ok, ensure_eq_ok, decide_eq_true_eq, pure,
    Except.pure, Except.ok.injEq]
  by_cases listed : table ∈ partitionedTables
  · have months := progress.months ((monthsFrom start monthsAhead.toNat).map (MonthPartition.mk table))
      (by simpa using fun _ _ => listed)
    rw [List.forall_mem_map] at months
    constructor
    · constructor
      · rintro ⟨next, _, _, _, ⟨_, ahead, rfl⟩, all⟩
        exact ⟨listed, ahead, months.1.mp ⟨next, all⟩⟩
      · rintro ⟨_, ahead, each⟩
        obtain ⟨next, all⟩ := months.1.mpr each
        exact ⟨next, (), listed, _, ⟨(), ahead, rfl⟩, all⟩
    · rintro next ⟨_, _, _, ⟨_, _, rfl⟩, all⟩
      exact months.2 next all
  · constructor
    · constructor
      · rintro ⟨_, _, known, _⟩
        exact absurd known listed
      · rintro ⟨known, _⟩
        exact absurd known listed
    · rintro _ ⟨_, known, _⟩
      exact absurd known listed

theorem Progress.ensured (progress : Progress base seen done) (monthsAhead : Int) (start : Month)
    (tables : List String) :
    ((∃ next, tables.foldlM (ensureTable monthsAhead start) done = .ok next) ↔
      ∀ table ∈ tables, base.Ready monthsAhead start table) ∧
    ∀ next, tables.foldlM (ensureTable monthsAhead start) done = .ok next →
      Progress base (seen ++ wanted tables monthsAhead start) next := by
  induction tables generalizing seen done with
  | nil =>
    refine ⟨⟨fun _ => by simp, fun _ => ⟨done, rfl⟩⟩, fun next same => ?_⟩
    cases same
    rwa [wanted, List.flatMap_nil, List.append_nil]
  | cons table tables ih =>
    have first := progress.table monthsAhead start table
    simp only [List.foldlM_cons, Except.bind_eq_ok, List.forall_mem_cons]
    constructor
    · constructor
      · rintro ⟨last, next, one, rest⟩
        exact ⟨first.1.mp ⟨next, one⟩, (ih (first.2 next one)).1.mp ⟨last, rest⟩⟩
      · rintro ⟨here, others⟩
        obtain ⟨next, one⟩ := first.1.mpr here
        obtain ⟨last, rest⟩ := (ih (first.2 next one)).1.mpr others
        exact ⟨last, next, one, rest⟩
    · rintro last ⟨next, one, rest⟩
      have whole := (ih (first.2 next one)).2 last rest
      rwa [List.append_assoc] at whole

theorem Progress.none (kept : db.Kept) : Progress db [] ([], db) := by
  refine ⟨kept, fun _ => rfl, fun _ => rfl, List.nodup_nil, fun name => ?_, fun name => ?_⟩
  · constructor
    · rintro ⟨⟩
    · rintro ⟨here, missing⟩
      rw [here] at missing
      cases missing
  · simp

/-- Where all partitions are there, nothing is done. -/
theorem ensured_again (known : ∀ table ∈ tables, table ∈ partitionedTables ∧ 0 ≤ monthsAhead)
    (here : ∀ p ∈ wanted tables monthsAhead start, done.2.exists p.name = true) :
    tables.foldlM (ensureTable monthsAhead start) done = .ok done := by
  have months (ps : List MonthPartition) (there : ∀ p ∈ ps, done.2.exists p.name = true) :
      ps.foldlM ensureMonth done = .ok done := by
    induction ps with
    | nil => rfl
    | cons p ps ih =>
      rw [List.forall_mem_cons] at there
      rw [List.foldlM_cons, ensureMonth, if_pos there.1]
      exact ih there.2
  induction tables with
  | nil => rfl
  | cons table tables ih =>
    rw [List.forall_mem_cons] at known
    rw [wanted, List.flatMap_cons, List.forall_mem_append] at here
    have first : ensureTable monthsAhead start done table = .ok done := by
      simp only [ensureTable, monthPartitions, Except.bind_eq_ok, ensure_eq_ok, decide_eq_true_eq, pure,
        Except.pure, Except.ok.injEq]
      exact ⟨(), known.1.1, _, ⟨(), known.1.2, rfl⟩, months _ here.1⟩
    rw [List.foldlM_cons, first]
    exact ih known.2 here.2

/-- The timestamps of the rows that were inserted, the newest first. -/
def inserted (parent : String) (history : List (Entry Call Answer PartitionError)) : List Time :=
  history.filterMap fun entry =>
    match entry with
    | ⟨.insertRow table at_, .ok _⟩ => if table = parent then some at_ else none
    | _ => none

theorem kept_migrated : Db.migrated.Kept :=
  fun _ => ⟨by simp [Db.migrated, PartitionedTable.ranges], .nil, by simp [Db.migrated], [], rfl, by simp⟩

theorem kept_step {call : Call} {a : Answer} {next : Db} (kept : db.Kept)
    (answered : machine.exec call db = .ok (a, next)) :
    next.Kept ∧ ∀ name, db.exists name = true → next.exists name = true := by
  cases call with
  | insertRow parent at_ =>
    obtain ⟨name, other, taken, still, ranges, _⟩ := insertRow_kept kept parent at_
    obtain ⟨_, again, _⟩ := answer_eq_ok.mp answered
    rw [taken] at again
    cases again
    refine ⟨still, fun name here => ?_⟩
    simpa only [Db.exists, ranges] using here
  | ensureMonthPartitions tables monthsAhead start =>
    obtain ⟨_, created, _⟩ := answer_eq_ok.mp answered
    have progress := ((Progress.none kept).ensured monthsAhead start tables).2 _ created
    exact ⟨progress.kept, fun name here => (progress.there name).mpr (.inl here)⟩

theorem kept_run (kept : db.Kept) (run : machine.Run db history later) :
    later.Kept ∧ ∀ name, db.exists name = true → later.exists name = true := by
  refine run.invariant (P := fun s => s.Kept ∧ ∀ name, db.exists name = true → s.exists name = true)
    ⟨kept, fun _ here => here⟩ fun s call a next held answered => ?_
  have step := kept_step held.1 answered
  exact ⟨step.1, fun name here => step.2 name (held.2 name here)⟩

theorem rows_step {call : Call} {a : Answer} {next : Db} (kept : db.Kept)
    (answered : machine.exec call db = .ok (a, next)) (parent : String) :
    (next.tables parent).rows.Perm (inserted parent [⟨call, .ok a⟩] ++ (db.tables parent).rows) := by
  cases call with
  | insertRow table at_ =>
    obtain ⟨name, other, taken, _, _, more, others, _⟩ := insertRow_kept kept table at_
    obtain ⟨_, again, _⟩ := answer_eq_ok.mp answered
    rw [taken] at again
    cases again
    by_cases same : table = parent
    · subst same
      simpa [inserted] using more
    · rw [others parent (Ne.symm same)]
      simp [inserted, same]
  | ensureMonthPartitions tables monthsAhead start =>
    obtain ⟨_, created, _⟩ := answer_eq_ok.mp answered
    have progress := ((Progress.none kept).ensured monthsAhead start tables).2 _ created
    rw [progress.rows]
    exact .refl _

/-- In every run every inserted row is in one partition: the one of its month, or DEFAULT if its month has
none. The partitions are months that do not overlap, and no row is ever refused. -/
theorem rows_partitioned (run : machine.Run .migrated history db) (parent : String) :
    Kept parent (db.tables parent) ∧ (db.tables parent).rows.Perm (inserted parent history) ∧
      ∀ at_, ∃ name next, machine.exec (.insertRow parent at_) db = .ok (.inserted name, next) := by
  have kept := kept_run kept_migrated run
  refine ⟨kept.1 parent, ?_, fun at_ => ?_⟩
  · clear kept
    induction run with
    | nil => exact .refl _
    | raise _ _ ih => simpa [inserted] using ih
    | @answer history s next call a before answered ih =>
      have step := rows_step (kept_run kept_migrated before).1 answered parent
      have whole := step.trans (ih.append_left _)
      rwa [inserted, inserted, ← List.filterMap_append] at whole
  · obtain ⟨name, next, taken, _⟩ := insertRow_kept kept.1 parent at_
    exact ⟨name, next, answer_eq_ok.mpr ⟨name, taken, rfl⟩⟩

/-- Partitions are created exactly if the tables are known, all bounds are dates and DEFAULT has no row of
the months; what was missing is created, once. From then on the call has nothing left to do, and a row of
these months goes to the partition of its month. -/
theorem ensure_month_partitions (run : machine.Run .migrated history db) (tables : List String)
    (monthsAhead : Int) (start : Month) :
    ((∃ a next, machine.exec (.ensureMonthPartitions tables monthsAhead start) db = .ok (a, next)) ↔
      ∀ table ∈ tables, db.Ready monthsAhead start table) ∧
    ∀ names next,
      machine.exec (.ensureMonthPartitions tables monthsAhead start) db = .ok (.created names, next) →
      names.Nodup ∧
      (∀ name, name ∈ names ↔ db.exists name = false ∧
        ∃ p ∈ wanted tables monthsAhead start, p.name = name) ∧
      ∀ newer later, machine.Run next newer later →
        machine.exec (.ensureMonthPartitions tables monthsAhead start) later = .ok (.created [], later) ∧
        ∀ p ∈ wanted tables monthsAhead start, ∀ at_, p.month.start ≤ at_ → at_ < p.month.next.start →
          ∃ last, machine.exec (.insertRow p.parent at_) later = .ok (.inserted p.name, last) := by
  have kept := (kept_run kept_migrated run).1
  have all := (Progress.none kept).ensured monthsAhead start tables
  refine ⟨?_, fun names next created => ?_⟩
  · rw [← all.1]
    constructor
    · rintro ⟨a, next, answered⟩
      obtain ⟨names, done, _⟩ := answer_eq_ok.mp answered
      exact ⟨_, done⟩
    · rintro ⟨⟨names, next⟩, done⟩
      exact ⟨.created names, next, answer_eq_ok.mpr ⟨names, done, rfl⟩⟩
  · obtain ⟨_, done, same⟩ := answer_eq_ok.mp created
    cases same
    have progress := all.2 _ done
    have ready := all.1.mp ⟨_, done⟩
    refine ⟨progress.once, fun name => ?_, fun newer later more => ?_⟩
    · rw [progress.created, progress.there]
      constructor
      · rintro ⟨known | asked, missing⟩
        · rw [known] at missing
          cases missing
        · exact ⟨missing, asked⟩
      · exact fun ⟨missing, asked⟩ => ⟨.inr asked, missing⟩
    · have after := kept_run progress.kept more
      have listed : ∀ p ∈ wanted tables monthsAhead start, p.parent ∈ partitionedTables := by
        intro p member
        obtain ⟨table, known, months⟩ := List.mem_flatMap.mp member
        obtain ⟨m, _, rfl⟩ := List.mem_map.mp months
        exact (ready table known).1
      have here : ∀ p ∈ wanted tables monthsAhead start, later.exists p.name = true :=
        fun p member => after.2 _ ((progress.there _).mpr (.inr ⟨p, member, rfl⟩))
      refine ⟨?_, fun p member at_ since before => ?_⟩
      · refine answer_eq_ok.mpr ⟨[], ?_, rfl⟩
        exact ensured_again (fun table known => ⟨(ready table known).1, (ready table known).2.1⟩) here
      · obtain ⟨name, last, taken, _, _, _, _, goes⟩ := insertRow_kept after.1 p.parent at_
        have range := (exists_iff after.1 (listed p member)).mp (here p member)
        obtain rfl := goes p.range range (Range.covers_iff.mpr ⟨since, before⟩)
        exact ⟨last, answer_eq_ok.mpr ⟨_, taken, rfl⟩⟩

end Runs

section Sample

def october : Month := ⟨2026, 10, by decide, by decide, by decide⟩

/-- A fetch of November while only October has its partition. -/
def late : List Call := [
  .ensureMonthPartitions ["fetches"] 0 october, .insertRow "fetches" october.start,
  .insertRow "fetches" october.next.start]

def sample : List (Entry Call Answer PartitionError) × Db := machine.replay .migrated late

end Sample

theorem rows_partitioned_sample : Kept "fetches" (sample.2.tables "fetches") :=
  (rows_partitioned (machine.run_replay .migrated late) "fetches").1

/-- The row in DEFAULT keeps November's partition from being created. -/
theorem ensure_month_partitions_sample : ¬ ∃ a next,
    machine.exec (.ensureMonthPartitions ["audit_log", "fetches"] 1 october) sample.2 = .ok (a, next) := by
  intro accepted
  have ready := (ensure_month_partitions (machine.run_replay .migrated late) _ _ _).1.mp accepted
  have clear := ((ready "fetches" (by decide)).2.2 october.next (by decide)).2
  exact absurd (clear october.next.start (by decide +kernel)) (by decide +kernel)

end Collector.Persistence.Partitions
