import Mathlib.Order.Monotone.Basic
import Collector.Contracts.Canonical
import Collector.Lib.Machine

/-!
Month partitions of the large tables. `ensure_month_partitions` creates the missing ones; a row goes to the
partition of its month, or to DEFAULT while that month has none. A table is its partitions with the
timestamps of their rows, and PostgreSQL's own checks of a new partition are part of the model: the range
must not be empty or overlap another one, and DEFAULT must hold no row of it.
-/

namespace Collector.Persistence.Partitions
open Collector.Lib Collector.Contracts

/-- The year and the month of a `date`, and of those that `month_partitions` counts on from it. -/
structure Month where
  year : Nat
  month : Nat
  since : 1 ≤ year
  first : 1 ≤ month
  last : month ≤ 12
  deriving DecidableEq, Repr

namespace Month

def next (m : Month) : Month :=
  if december : m.month = 12 then ⟨m.year + 1, 1, by omega, by omega, by omega⟩
  else ⟨m.year, m.month + 1, m.since, by omega, by have := m.last; omega⟩

def isLeap (year : Nat) : Bool :=
  decide (year % 4 = 0) && (decide (year % 100 ≠ 0) || decide (year % 400 = 0))

/-- The days of the calendar before a year. -/
def daysBeforeYear (year : Nat) : Nat :=
  (year - 1) * 365 + (year - 1) / 4 - (year - 1) / 100 + (year - 1) / 400

def daysBeforeMonth (year month : Nat) : Nat :=
  [0, 31, 59, 90, 120, 151, 181, 212, 243, 273, 304, 334].getD (month - 1) 0 +
    if 2 < month ∧ isLeap year = true then 1 else 0

/-- Midnight UTC of the first day. -/
def start (m : Month) : Time :=
  ((daysBeforeYear m.year + daysBeforeMonth m.year m.month : Nat) - 719162 : Int) * 86400000000

example : (⟨2026, 10, by decide, by decide, by decide⟩ : Month).start = 1790812800000000 := by decide

/-- The months before it. -/
def number (m : Month) : Nat := 12 * (m.year - 1) + (m.month - 1)

/-- The month with a number. -/
def counted (n : Nat) : Month := ⟨n / 12 + 1, n % 12 + 1, by omega, by omega, by omega⟩

theorem counted_number (m : Month) : counted m.number = m := by
  have since := m.since
  have first := m.first
  have last := m.last
  unfold counted number
  congr 1 <;> omega

theorem number_next (m : Month) : m.next.number = m.number + 1 := by
  have since := m.since
  have first := m.first
  unfold next number
  split
  · dsimp only
    omega
  · dsimp only
    omega

theorem number_counted (n : Nat) : (counted n).number = n := by
  unfold counted number
  dsimp only
  omega

theorem number_injective {m n : Month} (same : m.number = n.number) : m = n := by
  rw [← counted_number m, same, counted_number]

theorem counted_succ (n : Nat) : counted (n + 1) = (counted n).next :=
  number_injective (by rw [number_next, number_counted, number_counted])

theorem start_lt_next (m : Month) : m.start < m.next.start := by
  obtain ⟨year, month, since, first, last⟩ := m
  unfold start next daysBeforeYear daysBeforeMonth isLeap
  have twelve : month = 1 ∨ month = 2 ∨ month = 3 ∨ month = 4 ∨ month = 5 ∨ month = 6 ∨ month = 7 ∨
      month = 8 ∨ month = 9 ∨ month = 10 ∨ month = 11 ∨ month = 12 := by omega
  rcases twelve with rfl | rfl | rfl | rfl | rfl | rfl | rfl | rfl | rfl | rfl | rfl | rfl
  all_goals
    simp
    try split
  all_goals omega

theorem start_le_start {m n : Month} (before : m.number ≤ n.number) : m.start ≤ n.start := by
  have increasing : StrictMono fun n => (counted n).start :=
    strictMono_nat_of_lt_succ fun n => counted_succ n ▸ (counted n).start_lt_next
  have ordered := increasing.monotone before
  rwa [counted_number, counted_number] at ordered

/-- Of two months one ends before the other one starts. -/
theorem apart {m n : Month} (different : m ≠ n) : m.next.start ≤ n.start ∨ n.next.start ≤ m.start := by
  have numbers : m.number ≠ n.number := fun same => different (number_injective same)
  rcases Nat.lt_or_gt_of_ne numbers with before | after
  · exact .inl (start_le_start (by rw [number_next]; omega))
  · exact .inr (start_le_start (by rw [number_next]; omega))

end Month

/-- `PARTITIONED_TABLES`. -/
def partitionedTables : List String := ["audit_log", "fetches"]

structure MonthPartition where
  parent : String
  month : Month
  deriving DecidableEq, Repr

def MonthPartition.name (p : MonthPartition) : String :=
  p.parent ++ "_y" ++ padded 4 p.month.year ++ "m" ++ padded 2 p.month.month

inductive PartitionError where
  | valueError (parameter : String)
  | noPartition (parent : String)
  | emptyRange (name : String)
  | overlap (name : String)
  | defaultRows (name : String)
  deriving DecidableEq, Repr

/-- `date(year, month, 1)`, at midnight UTC. -/
def date (m : Month) : Except PartitionError Time := do
  ensure (decide (m.year ≤ 9999)) (.valueError "year")
  return m.start

def MonthPartition.lower (p : MonthPartition) : Except PartitionError Time := date p.month

def MonthPartition.upper (p : MonthPartition) : Except PartitionError Time := date p.month.next

/-- `FOR VALUES FROM (lower) TO (upper)`. -/
structure Range where
  name : String
  lower : Time
  upper : Time
  deriving DecidableEq, Repr

def Range.covers (r : Range) (at_ : Time) : Bool := decide (r.lower ≤ at_) && decide (at_ < r.upper)

structure Child where
  range : Range
  rows : List Time
  deriving DecidableEq, Repr

/-- A table with its month partitions and its DEFAULT partition, by the timestamps of their rows. -/
structure PartitionedTable where
  children : List Child
  default : Option (List Time)

namespace PartitionedTable

def ranges (t : PartitionedTable) : List Range := t.children.map Child.range

def rows (t : PartitionedTable) : List Time := t.children.flatMap Child.rows ++ t.default.getD []

end PartitionedTable

structure Db where
  tables : String → PartitionedTable

/-- After the migrations: each table has its DEFAULT partition and nothing else. -/
def Db.migrated : Db := ⟨fun _ => ⟨[], some []⟩⟩

def Db.put (db : Db) (parent : String) (t : PartitionedTable) : Db :=
  ⟨Function.update db.tables parent t⟩

/-- `to_regclass(name) IS NOT NULL`, for the name of a month partition. -/
def Db.exists (db : Db) (name : String) : Bool :=
  partitionedTables.any fun parent => (db.tables parent).ranges.any fun r => decide (r.name = name)

/-- The row goes to the partition whose range covers it. -/
def place (at_ : Time) : List Child → Option (String × List Child)
  | [] => none
  | c :: rest =>
    if c.range.covers at_ then some (c.range.name, { c with rows := c.rows ++ [at_] } :: rest)
    else (place at_ rest).map fun (name, children) => (name, c :: children)

def insertRow (db : Db) (parent : String) (at_ : Time) : Except PartitionError (String × Db) :=
  let t := db.tables parent
  match place at_ t.children with
  | some (name, children) => .ok (name, db.put parent { t with children })
  | none =>
    match t.default with
    | some rows => .ok (parent ++ "_default", db.put parent { t with default := some (rows ++ [at_]) })
    | none => .error (.noPartition parent)

/-- `CREATE TABLE IF NOT EXISTS … PARTITION OF …`, with the two dates of the statement. -/
def createPartition (db : Db) (p : MonthPartition) : Except PartitionError Db := do
  let lower ← p.lower
  let upper ← p.upper
  if db.exists p.name then return db
  else
    ensure (decide (lower < upper)) (.emptyRange p.name)
    ensure ((db.tables p.parent).ranges.all fun r => decide (upper ≤ r.lower) || decide (r.upper ≤ lower))
      (.overlap p.name)
    ensure (((db.tables p.parent).default.getD []).all fun at_ => !(Range.mk p.name lower upper).covers at_)
      (.defaultRows p.name)
    return db.put p.parent { db.tables p.parent with
      children := (db.tables p.parent).children ++ [⟨⟨p.name, lower, upper⟩, []⟩] }

/-- `month_partitions`, once `months_ahead` is known not to be negative. -/
def monthsFrom (start : Month) : Nat → List Month
  | 0 => [start]
  | n + 1 => start :: monthsFrom start.next n

def monthPartitions (parent : String) (start : Month) (monthsAhead : Int) :
    Except PartitionError (List MonthPartition) := do
  ensure (decide (0 ≤ monthsAhead)) (.valueError "months_ahead")
  return (monthsFrom start monthsAhead.toNat).map (MonthPartition.mk parent)

def ensureMonth (done : List String × Db) (p : MonthPartition) :
    Except PartitionError (List String × Db) := do
  if done.2.exists p.name then return done
  else
    let db ← createPartition done.2 p
    return (done.1 ++ [p.name], db)

def ensureTable (monthsAhead : Int) (start : Month) (done : List String × Db) (table : String) :
    Except PartitionError (List String × Db) := do
  ensure (decide (table ∈ partitionedTables)) (.valueError "tables")
  (← monthPartitions table start monthsAhead).foldlM ensureMonth done

def ensureMonthPartitions (db : Db) (tables : List String) (monthsAhead : Int) (start : Month) :
    Except PartitionError (List String × Db) :=
  tables.foldlM (ensureTable monthsAhead start) ([], db)

inductive Call where
  | insertRow (parent : String) (at_ : Time)
  | ensureMonthPartitions (tables : List String) (monthsAhead : Int) (start : Month)
  deriving DecidableEq, Repr

inductive Answer where
  | inserted (partition : String)
  | created (names : List String)
  deriving DecidableEq, Repr

/-- A call is a transaction: one that raises leaves all partitions as they were. -/
def machine : Machine Db Call Answer PartitionError where
  exec
    | .insertRow parent at_, db => answer .inserted (insertRow db parent at_)
    | .ensureMonthPartitions tables monthsAhead start, db =>
      answer .created (ensureMonthPartitions db tables monthsAhead start)

theorem padded_injective {width a b : Nat} (same : padded width a = padded width b) : a = b := by
  have chars := congrArg String.toList same
  simp only [padded, String.toList_ofList, Int.toNat_natCast] at chars
  have zeros (k : Nat) (digits : List Char) :
      Nat.ofDigitChars 10 (List.replicate k '0' ++ digits) 0 = Nat.ofDigitChars 10 digits 0 := by
    induction k with
    | zero => rfl
    | succ k ih => exact ih
  calc
    a = Nat.ofDigitChars 10 (Nat.toDigits 10 a) 0 :=
      (Nat.ofDigitChars_toDigits (by decide) (by decide)).symm
    _ = Nat.ofDigitChars 10 (Nat.toDigits 10 b) 0 := by rw [← zeros, chars, zeros]
    _ = b := Nat.ofDigitChars_toDigits (by decide) (by decide)

theorem isDigit_padded {width n : Nat} {c : Char} (member : c ∈ (padded width n).toList) :
    c.isDigit = true := by
  simp only [padded, String.toList_ofList, Int.toNat_natCast, List.mem_append, List.mem_replicate] at member
  rcases member with ⟨_, rfl⟩ | digit
  · rfl
  · exact Nat.isDigit_of_mem_toDigits (by decide) (by decide) digit

/-- The name of a partition says which one it is. -/
theorem MonthPartition.name_injective {p q : MonthPartition} (here : p.parent ∈ partitionedTables)
    (there : q.parent ∈ partitionedTables) (same : p.name = q.name) : p = q := by
  have chars := congrArg String.toList same
  simp only [MonthPartition.name, String.toList_append, List.append_assoc] at chars
  have parents : p.parent = q.parent := by
    have heads := congrArg List.head? chars
    simp only [partitionedTables, List.mem_cons, List.not_mem_nil, or_false] at here there
    rcases here with left | left <;> rcases there with right | right <;>
      rw [left, right] at heads ⊢ <;> cases heads
  rw [parents] at chars
  have suffixes := List.append_cancel_left (List.append_cancel_left chars)
  have digits (width n : Nat) : 'm' ∉ (padded width n).toList :=
    fun member => absurd (isDigit_padded member) (by decide)
  obtain ⟨years, _, months⟩ := (List.append_cons_inj_of_notMem (digits 4 _) (digits 2 _)).mp suffixes
  have year := padded_injective (String.toList_injective years)
  have month := padded_injective (String.toList_injective months)
  obtain ⟨parent, ⟨_, _, _, _, _⟩⟩ := p
  obtain ⟨other, ⟨_, _, _, _, _⟩⟩ := q
  subst parents year month
  rfl

end Collector.Persistence.Partitions
