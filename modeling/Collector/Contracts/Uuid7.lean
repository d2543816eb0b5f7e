import Collector.Contracts.Resolution
import Mathlib.Data.Nat.Bitwise

/-!
The UUIDv7 generator. Its state is a millisecond and a counter; every call moves the pair up in
the lexicographic order, whatever the clock says and whatever the random numbers are, and the
layout puts the pair above the random bits, so the ids of one generator come in order.
-/

namespace Collector.Contracts
open Collector.Lib

structure Uuid7Generator where
  lastMs : Int
  counter : Nat

/-- What one call takes from outside: the clock, `randbits(11)` and `randbits(62)`. -/
structure Reading where
  nowMs : Int
  freshCounter : Fin (2 ^ 11)
  randB : Fin (2 ^ 62)

namespace Uuid7Generator

/-- `_COUNTER_MAX`. -/
def counterMax : Nat := (1 <<< 12) - 1

/-- `__init__`. -/
def start : Uuid7Generator := ⟨-1, 0⟩

/-- The part of a call that changes the generator. -/
def advance (g : Uuid7Generator) (reading : Reading) : Uuid7Generator :=
  if g.lastMs < reading.nowMs then ⟨reading.nowMs, reading.freshCounter⟩
  else if g.counter < counterMax then { g with counter := g.counter + 1 }
  else ⟨g.lastMs + 1, reading.freshCounter⟩

/-- The 128 bits; the mask keeps the last 48 bits of the two's complement. -/
def layout (g : Uuid7Generator) (randB : Nat) : Nat :=
  ((g.lastMs % (1 <<< 48)).toNat <<< 80) ||| (0x7 <<< 76) ||| (g.counter <<< 64) |||
    (0b10 <<< 62) ||| randB

/-- `UUID(int=value)`. -/
def ofInt (value : Nat) : Except ContractError Uuid := do
  ensure (decide (value < 1 <<< 128)) (.valueError "int is out of range (need a 128-bit value)")
  return value

/-- `__call__`. -/
def call (g : Uuid7Generator) (reading : Reading) : Except ContractError (Uuid × Uuid7Generator) := do
  let next := g.advance reading
  let uuid ← ofInt (next.layout reading.randB)
  return (uuid, next)

/-- Successive calls. -/
def calls (g : Uuid7Generator) : List Reading → Except ContractError (List Uuid)
  | [] => .ok []
  | reading :: readings => do
    let (uuid, next) ← g.call reading
    let uuids ← next.calls readings
    return uuid :: uuids

/-- The generator after some calls. -/
def after (g : Uuid7Generator) (readings : List Reading) : Uuid7Generator :=
  readings.foldl advance g

end Uuid7Generator

/-- `uuid.int >> 80`. -/
def Uuid.timestamp (uuid : Uuid) : Nat := uuid >>> 80

/-- `UUID.version`. -/
def Uuid.version (uuid : Uuid) : Nat := (uuid >>> 76) &&& 0xf

/-- The counter in `rand_a`. -/
def Uuid.randA (uuid : Uuid) : Nat := (uuid >>> 64) &&& 0xfff

/-- The variant bits. -/
def Uuid.variant (uuid : Uuid) : Nat := (uuid >>> 62) &&& 0b11

def Uuid.randB (uuid : Uuid) : Nat := uuid &&& 0x3fffffffffffffff

namespace Uuid7Generator

/-- The state is one that fits the layout. -/
structure Fits (g : Uuid7Generator) : Prop where
  nonneg : 0 ≤ g.lastMs
  below : g.lastMs < 2 ^ 48
  counter : g.counter < 2 ^ 12

/-- The fields of the layout do not overlap. -/
theorem layout_eq {g : Uuid7Generator} (fits : g.Fits) {randB : Nat} (random : randB < 2 ^ 62) :
    g.layout randB = g.lastMs.toNat * 2 ^ 80 + 7 * 2 ^ 76 + g.counter * 2 ^ 64 + 2 * 2 ^ 62 +
      randB := by
  have mask : g.lastMs % (1 <<< 48) = g.lastMs := Int.emod_eq_of_lt fits.nonneg fits.below
  have counter := fits.counter
  have fourth : 0b10 <<< 62 ||| randB = 2 * 2 ^ 62 + randB := by
    rw [← Nat.shiftLeft_add_eq_or_of_lt random, Nat.shiftLeft_eq]
  have third : g.counter <<< 64 ||| (2 * 2 ^ 62 + randB) =
      g.counter * 2 ^ 64 + (2 * 2 ^ 62 + randB) := by
    rw [← Nat.shiftLeft_add_eq_or_of_lt (by omega), Nat.shiftLeft_eq]
  have second : 0x7 <<< 76 ||| (g.counter * 2 ^ 64 + (2 * 2 ^ 62 + randB)) =
      7 * 2 ^ 76 + (g.counter * 2 ^ 64 + (2 * 2 ^ 62 + randB)) := by
    rw [← Nat.shiftLeft_add_eq_or_of_lt (by omega), Nat.shiftLeft_eq]
  have first : g.lastMs.toNat <<< 80 ||| (7 * 2 ^ 76 + (g.counter * 2 ^ 64 + (2 * 2 ^ 62 + randB))) =
      g.lastMs.toNat * 2 ^ 80 + (7 * 2 ^ 76 + (g.counter * 2 ^ 64 + (2 * 2 ^ 62 + randB))) := by
    rw [← Nat.shiftLeft_add_eq_or_of_lt (by omega), Nat.shiftLeft_eq]
  rw [layout, mask, Nat.or_assoc, Nat.or_assoc, Nat.or_assoc, fourth, third, second, first]
  omega

/-- What the fields of an id say. -/
structure Shows (uuid : Uuid) (g : Uuid7Generator) (randB : Nat) : Prop where
  timestamp : (uuid.timestamp : Int) = g.lastMs
  version : uuid.version = 7
  counter : uuid.randA = g.counter
  variant : uuid.variant = 0b10
  random : uuid.randB = randB

theorem layout_shows {g : Uuid7Generator} (fits : g.Fits) {randB : Nat} (random : randB < 2 ^ 62) :
    Shows (g.layout randB) g randB := by
  have value := layout_eq fits random
  have nonneg := fits.nonneg
  have counter := fits.counter
  constructor
  · rw [Uuid.timestamp, value, Nat.shiftRight_eq_div_pow]
    omega
  · rw [Uuid.version, value, Nat.shiftRight_eq_div_pow, show 0xf = 2 ^ 4 - 1 by rfl,
      Nat.and_two_pow_sub_one_eq_mod]
    omega
  · rw [Uuid.randA, value, Nat.shiftRight_eq_div_pow, show 0xfff = 2 ^ 12 - 1 by rfl,
      Nat.and_two_pow_sub_one_eq_mod]
    omega
  · rw [Uuid.variant, value, Nat.shiftRight_eq_div_pow, show 0b11 = 2 ^ 2 - 1 by rfl,
      Nat.and_two_pow_sub_one_eq_mod]
    omega
  · rw [Uuid.randB, value, show 0x3fffffffffffffff = 2 ^ 62 - 1 by rfl,
      Nat.and_two_pow_sub_one_eq_mod]
    omega

/-- The lexicographic order of millisecond and counter. -/
def Before (g h : Uuid7Generator) : Prop :=
  g.lastMs < h.lastMs ∨ g.lastMs = h.lastMs ∧ g.counter < h.counter

theorem Before.trans {g h k : Uuid7Generator} (first : g.Before h) (second : h.Before k) :
    g.Before k := by
  unfold Before at first second ⊢
  omega

/-- Every call moves the pair up. -/
theorem before_advance (g : Uuid7Generator) (reading : Reading) : g.Before (g.advance reading) := by
  unfold advance Before
  split
  · rename_i later
    exact .inl later
  · split
    · exact .inr ⟨rfl, Nat.lt_succ_self _⟩
    · exact .inl (Int.lt_succ _)

theorem counter_advance (g : Uuid7Generator) (reading : Reading) :
    (g.advance reading).counter < 2 ^ 12 := by
  have fresh := reading.freshCounter.isLt
  unfold advance
  split
  · dsimp only
    omega
  · split
    · rename_i room
      unfold counterMax at room
      dsimp only
      omega
    · dsimp only
      omega

/-- The millisecond is not behind the clock. -/
theorem nowMs_le_advance (g : Uuid7Generator) (reading : Reading) :
    reading.nowMs ≤ (g.advance reading).lastMs ∧ g.lastMs ≤ (g.advance reading).lastMs := by
  unfold advance
  split
  · dsimp only
    omega
  · split
    · dsimp only
      omega
    · dsimp only
      omega

theorem lastMs_le_after (g : Uuid7Generator) (readings : List Reading) :
    g.lastMs ≤ (g.after readings).lastMs ∧
      ∀ reading ∈ readings, reading.nowMs ≤ (g.after readings).lastMs := by
  induction readings generalizing g with
  | nil => exact ⟨le_rfl, fun _ none => absurd none List.not_mem_nil⟩
  | cons reading readings ih =>
    obtain ⟨grown, seen⟩ := ih (g.advance reading)
    obtain ⟨clock, kept⟩ := g.nowMs_le_advance reading
    refine ⟨kept.trans grown, ?_⟩
    rw [List.forall_mem_cons]
    exact ⟨clock.trans grown, seen⟩

/-- Layouts are in the order of their states. -/
theorem layout_lt {g h : Uuid7Generator} (before : g.Before h) (here : g.Fits) (there : h.Fits)
    {u v : Nat} (first : u < 2 ^ 62) (second : v < 2 ^ 62) : g.layout u < h.layout v := by
  rw [layout_eq here first, layout_eq there second]
  have counters := here.counter
  have further := there.counter
  have nonneg := here.nonneg
  unfold Before at before
  omega

theorem call_eq {g : Uuid7Generator} {reading : Reading} (fits : (g.advance reading).Fits) :
    g.call reading =
      .ok ((g.advance reading).layout reading.randB, g.advance reading) := by
  have random := reading.randB.isLt
  have value := layout_eq fits random
  have counter := fits.counter
  have below := fits.below
  have nonneg := fits.nonneg
  have small : (g.advance reading).layout reading.randB < 1 <<< 128 := by
    rw [value, Nat.shiftLeft_eq]
    omega
  rw [call, ofInt, decide_eq_true small]
  rfl

/-- Every state that the calls pass through keeps its millisecond in 48 bits. -/
def InRange (g : Uuid7Generator) (readings : List Reading) : Prop :=
  ∀ earlier reading later, readings = earlier ++ reading :: later →
    0 ≤ (g.after (earlier ++ [reading])).lastMs ∧
      (g.after (earlier ++ [reading])).lastMs < 2 ^ 48

theorem InRange.nil (g : Uuid7Generator) : g.InRange [] := by
  intro earlier reading later split
  simp at split

theorem InRange.of_cons {g : Uuid7Generator} {reading : Reading} {readings : List Reading}
    (first : 0 ≤ (g.advance reading).lastMs ∧ (g.advance reading).lastMs < 2 ^ 48)
    (rest : (g.advance reading).InRange readings) : g.InRange (reading :: readings) := by
  intro earlier other later split
  cases earlier with
  | nil =>
    obtain ⟨rfl, -⟩ := List.cons.inj split
    exact first
  | cons before earlier =>
    obtain ⟨rfl, tail⟩ := List.cons.inj split
    exact rest earlier other later tail

theorem InRange.cons {g : Uuid7Generator} {reading : Reading} {readings : List Reading}
    (range : g.InRange (reading :: readings)) :
    (g.advance reading).Fits ∧ (g.advance reading).InRange readings := by
  constructor
  · have first := range [] reading readings rfl
    exact ⟨first.1, first.2, g.counter_advance reading⟩
  · rintro earlier another later rfl
    exact range (reading :: earlier) another later rfl

/-- The ids of successive calls: each shows the state after its call, and they come in order. -/
theorem calls_spec {g : Uuid7Generator} {readings : List Reading} (range : g.InRange readings) :
    ∃ uuids, g.calls readings = .ok uuids ∧ uuids.Pairwise (· < ·) ∧
      (∀ uuid ∈ uuids, ∃ h : Uuid7Generator, ∃ reading : Reading, g.Before h ∧ h.Fits ∧
        uuid = h.layout reading.randB) ∧
      uuids.length = readings.length ∧
      ∀ earlier reading later, readings = earlier ++ reading :: later →
        ∃ uuid, uuids[earlier.length]? = some uuid ∧
          Shows uuid (g.after (earlier ++ [reading])) reading.randB := by
  induction readings generalizing g with
  | nil =>
    refine ⟨[], rfl, List.Pairwise.nil, fun _ none => absurd none List.not_mem_nil, rfl, ?_⟩
    intro earlier reading later split
    simp at split
  | cons reading readings ih =>
    obtain ⟨fits, rest⟩ := range.cons
    obtain ⟨uuids, made, ordered, states, length, shown⟩ := ih rest
    have random := reading.randB.isLt
    refine ⟨(g.advance reading).layout reading.randB :: uuids, ?_, ?_, ?_, ?_, ?_⟩
    · rw [calls, call_eq fits]
      simp only [bind, Except.bind, made]
      rfl
    · rw [List.pairwise_cons]
      refine ⟨?_, ordered⟩
      intro uuid member
      obtain ⟨h, other, before, there, rfl⟩ := states uuid member
      exact layout_lt before fits there random other.randB.isLt
    · rw [List.forall_mem_cons]
      refine ⟨⟨_, reading, g.before_advance reading, fits, rfl⟩, ?_⟩
      intro uuid member
      obtain ⟨h, other, before, there, same⟩ := states uuid member
      exact ⟨h, other, (g.before_advance reading).trans before, there, same⟩
    · rw [List.length_cons, List.length_cons, length]
    · intro earlier other later split
      cases earlier with
      | nil =>
        obtain ⟨rfl, -⟩ := List.cons.inj split
        exact ⟨_, rfl, layout_shows fits random⟩
      | cons first earlier =>
        obtain ⟨rfl, tail⟩ := List.cons.inj split
        exact shown earlier other later tail

end Uuid7Generator

/-- The ids of one generator are strictly increasing, well formed and not behind the clock. -/
theorem uuid7_monotone {readings : List Reading} (range : Uuid7Generator.start.InRange readings) :
    ∃ uuids, Uuid7Generator.start.calls readings = .ok uuids ∧ uuids.Pairwise (· < ·) ∧
      uuids.length = readings.length ∧
      ∀ earlier reading later, readings = earlier ++ reading :: later →
        ∃ uuid, uuids[earlier.length]? = some uuid ∧
          Uuid7Generator.Shows uuid (Uuid7Generator.start.after (earlier ++ [reading]))
            reading.randB ∧
          ∀ seen ∈ earlier ++ [reading], seen.nowMs ≤ (uuid.timestamp : Int) := by
  obtain ⟨uuids, made, ordered, -, length, shown⟩ := Uuid7Generator.calls_spec range
  refine ⟨uuids, made, ordered, length, fun earlier reading later split => ?_⟩
  obtain ⟨uuid, found, shows⟩ := shown earlier reading later split
  refine ⟨uuid, found, shows, fun seen member => ?_⟩
  rw [shows.timestamp]
  exact (Uuid7Generator.start.lastMs_le_after (earlier ++ [reading])).2 seen member

/-- A clock that goes back and stands still. -/
def Uuid7Generator.backwards : List Reading := [⟨5, 2047, 1⟩, ⟨3, 0, 9⟩, ⟨5, 12, 0⟩]

theorem uuid7_monotone_backwards :
    ∃ uuids, Uuid7Generator.start.calls Uuid7Generator.backwards = .ok uuids ∧
      uuids.Pairwise (· < ·) ∧ uuids.length = Uuid7Generator.backwards.length ∧
      ∀ earlier reading later, Uuid7Generator.backwards = earlier ++ reading :: later →
        ∃ uuid, uuids[earlier.length]? = some uuid ∧
          Uuid7Generator.Shows uuid (Uuid7Generator.start.after (earlier ++ [reading]))
            reading.randB ∧
          ∀ seen ∈ earlier ++ [reading], seen.nowMs ≤ (uuid.timestamp : Int) := by
  apply uuid7_monotone
  apply Uuid7Generator.InRange.of_cons (by decide)
  apply Uuid7Generator.InRange.of_cons (by decide)
  apply Uuid7Generator.InRange.of_cons (by decide)
  exact Uuid7Generator.InRange.nil _

end Collector.Contracts
