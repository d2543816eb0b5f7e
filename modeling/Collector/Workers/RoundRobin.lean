import Collector.Lib.Outcomes
import Collector.Workers.ClaimPass
import Mathlib.Data.Nat.ModEq

/-!
The bindings of a worker take turns. A pass begins after the binding that was served last, so a
binding with something to claim comes closer to the front with every pass that passes it over,
and a pass that begins with it serves it.
-/

namespace Collector.Workers
open Collector.Lib Collector.Persistence Collector.Persistence.Pools

section Passes
variable {queue lock task : Type} (bindings : List (Claimer queue lock task)) (limit : Nat)
  (now : Time)

/-- The rest of a pass over the bindings, by what each backend gives when it is asked. -/
inductive Visits (answers : Nat → List task) : List Nat → Claimed task → Claimed task → Prop where
  | nil (claimed : Claimed task) : Visits answers [] claimed claimed
  | full {visit : List Nat} {claimed : Claimed task} :
      limit ≤ claimed.tasks.length → Visits answers visit claimed claimed
  | unbound {index : Nat} {rest : List Nat} {claimed final : Claimed task} :
      bindings[index]? = none → Visits answers rest claimed final →
      Visits answers (index :: rest) claimed final
  | empty {index : Nat} {rest : List Nat} {claimed final : Claimed task}
      {binding : Claimer queue lock task} :
      claimed.tasks.length < limit → bindings[index]? = some binding →
      (binding (limit - claimed.tasks.length) now).Gives (answers index) → answers index = [] →
      Visits answers rest claimed final → Visits answers (index :: rest) claimed final
  | served {index : Nat} {rest : List Nat} {claimed final : Claimed task}
      {binding : Claimer queue lock task} :
      claimed.tasks.length < limit → bindings[index]? = some binding →
      (binding (limit - claimed.tasks.length) now).Gives (answers index) → answers index ≠ [] →
      Visits answers rest
        { tasks := claimed.tasks ++ (answers index).map fun task => (task, index)
          nextBinding := (index + 1) % bindings.length } final →
      Visits answers (index :: rest) claimed final

/-- The bindings in the order of a pass. -/
def visiting (start : Nat) : List Nat :=
  (List.range bindings.length).map fun offset => (start + offset) % bindings.length

variable {bindings limit now}

theorem Visits.congr {answers other : Nat → List task} {visit : List Nat}
    {claimed final : Claimed task} (visits : Visits bindings limit now answers visit claimed final)
    (same : ∀ index ∈ visit, answers index = other index) :
    Visits bindings limit now other visit claimed final := by
  induction visits with
  | nil claimed => exact .nil claimed
  | full enough => exact .full enough
  | unbound missing _ ih =>
    exact .unbound missing (ih fun index member => same index (List.mem_cons_of_mem _ member))
  | empty room found given nothing _ ih =>
    rw [same _ List.mem_cons_self] at given nothing
    exact .empty room found given nothing
      (ih fun index member => same index (List.mem_cons_of_mem _ member))
  | served room found given filled _ ih =>
    have rest := ih fun index member => same index (List.mem_cons_of_mem _ member)
    rw [same _ List.mem_cons_self] at given filled rest
    exact .served room found given filled rest

/-- Every execution of the loop is one by answers that the backends' transactions give. -/
theorem visits_of_gives {visit : List Nat} {claimed final : Claimed task} (distinct : visit.Nodup)
    (given : (claimFrom bindings limit now visit claimed).Gives final) :
    ∃ answers, Visits bindings limit now answers visit claimed final := by
  induction visit generalizing claimed with
  | nil =>
    cases given
    exact ⟨fun _ => [], .nil _⟩
  | cons index rest ih =>
    obtain ⟨fresh, distinct⟩ := List.nodup_cons.mp distinct
    unfold claimFrom at given
    split at given
    case isTrue enough =>
      cases given
      exact ⟨fun _ => [], .full enough⟩
    case isFalse room =>
      cases found : bindings[index]? with
      | none =>
        rw [found] at given
        obtain ⟨answers, visits⟩ := ih distinct given
        exact ⟨answers, .unbound found visits⟩
      | some binding =>
        rw [found] at given
        obtain ⟨tasks, asked, given⟩ := Txn.gives_bind.mp given
        have asked := Txn.gives_of_zoom asked
        have room := Nat.lt_of_not_le room
        have others (answers : Nat → List task) : ∀ other ∈ rest,
            answers other = Function.update answers index tasks other := by
          intro other member
          have elsewhere : other ≠ index := by
            intro same
            exact fresh (same ▸ member)
          exact (Function.update_of_ne elsewhere _ _).symm
        split at given
        case isTrue nothing =>
          obtain ⟨answers, visits⟩ := ih distinct given
          refine ⟨Function.update answers index tasks, .empty room found ?_ ?_
            (visits.congr (others answers))⟩
          · rwa [Function.update_self]
          · rw [Function.update_self]
            exact List.isEmpty_iff.mp nothing
        case isFalse filled =>
          obtain ⟨answers, visits⟩ := ih distinct given
          refine ⟨Function.update answers index tasks, .served room found ?_ ?_ ?_⟩
          · rwa [Function.update_self]
          · rw [Function.update_self]
            exact fun nothing => filled (List.isEmpty_iff.mpr nothing)
          · rw [Function.update_self]
            exact visits.congr (others answers)

/-- Below `n` an offset is determined by where it leads. -/
theorem offset_unique {n start first second : Nat} (firstBelow : first < n) (secondBelow : second < n)
    (same : (start + first) % n = (start + second) % n) : first = second := by
  have congruent : Nat.ModEq n first second := Nat.ModEq.add_left_cancel' start same
  exact congruent.eq_of_lt_of_lt firstBelow secondBelow

theorem visiting_nodup (start : Nat) : (visiting bindings start).Nodup := by
  refine List.Nodup.map_on ?_ List.nodup_range
  intro first firstIn second secondIn same
  exact offset_unique (List.mem_range.mp firstIn) (List.mem_range.mp secondIn) same

end Passes

section Distance
variable {n b : Nat}

/-- How far the binding `b` is from the front of a pass. -/
def distance (n b start : Nat) : Nat := (b + (n - start % n)) % n

variable (bound : b < n)
include bound

theorem distance_lt (start : Nat) : distance n b start < n := Nat.mod_lt _ (Nat.zero_lt_of_lt bound)

theorem visited_at_distance (start : Nat) : (start + distance n b start) % n = b := by
  have front := Nat.mod_lt start (Nat.zero_lt_of_lt bound)
  have whole := Nat.div_add_mod start n
  have total : start + (b + (n - start % n)) = b + n * (start / n + 1) := by
    rw [Nat.mul_add, Nat.mul_one]
    omega
  rw [distance, Nat.add_mod_mod, total, Nat.add_mul_mod_self_left, Nat.mod_eq_of_lt bound]

/-- A pass that served a binding before `b` brings `b` nearer to the front. -/
theorem distance_next {start offset : Nat} (before : offset < distance n b start) :
    distance n b ((start + offset + 1) % n) < distance n b start := by
  have far := distance_lt bound start
  have left : distance n b start - (offset + 1) < n := by omega
  have there : ((start + offset + 1) % n + (distance n b start - (offset + 1))) % n = b := by
    have onward : start + offset + 1 + (distance n b start - (offset + 1)) =
        start + distance n b start := by omega
    rw [Nat.mod_add_mod, onward]
    exact visited_at_distance bound start
  have nearer := offset_unique (distance_lt bound ((start + offset + 1) % n)) left
    ((visited_at_distance bound _).trans there.symm)
  omega

end Distance

section Turns
variable {queue lock task : Type} {bindings : List (Claimer queue lock task)} {limit : Nat}
  {now : Time} {answers : Nat → List task}

/-- The pass served the binding. -/
def Claimed.serves (claimed : Claimed task) (b : Nat) : Prop := ∃ task, (task, b) ∈ claimed.tasks

theorem Visits.serves_mono {visit : List Nat} {claimed final : Claimed task} {b : Nat}
    (visits : Visits bindings limit now answers visit claimed final) (serves : claimed.serves b) :
    final.serves b := by
  induction visits with
  | nil claimed => exact serves
  | full enough => exact serves
  | unbound missing _ ih => exact ih serves
  | empty room found given nothing _ ih => exact ih serves
  | served room found given filled _ ih =>
    obtain ⟨task, member⟩ := serves
    exact ih ⟨task, List.mem_append_left _ member⟩

/-- The rest of a pass from some offset on, where `b` is still to come: it is served, or nothing
more is taken at all, or the last binding served comes before it. -/
theorem Visits.turn {start offset count b : Nat} {claimed final : Claimed task}
    (visits : Visits bindings limit now answers
      ((List.range' offset count).map fun offset => (start + offset) % bindings.length) claimed final)
    (bound : b < bindings.length) (whole : offset + count = bindings.length)
    (ahead : offset ≤ distance bindings.length b start) (claimable : answers b ≠ []) :
    final.serves b ∨ (final.nextBinding = claimed.nextBinding ∧ limit ≤ claimed.tasks.length) ∨
      ∃ last < distance bindings.length b start,
        final.nextBinding = (start + last + 1) % bindings.length := by
  induction count generalizing offset claimed with
  | zero =>
    have far := distance_lt bound start
    omega
  | succ count ih =>
    rw [List.range'_succ, List.map_cons] at visits
    have index : (start + offset) % bindings.length < bindings.length :=
      Nat.mod_lt _ (Nat.zero_lt_of_lt bound)
    cases visits with
    | full enough => exact .inr (.inl ⟨rfl, enough⟩)
    | unbound missing rest =>
      rw [List.getElem?_eq_none_iff] at missing
      omega
    | empty room found given nothing rest =>
      have passed : offset ≠ distance bindings.length b start := by
        rintro rfl
        rw [visited_at_distance bound] at nothing
        exact claimable nothing
      exact ih rest (by omega) (by omega)
    | served room found given filled rest =>
      by_cases here : offset = distance bindings.length b start
      · subst here
        rw [visited_at_distance bound] at rest filled
        left
        apply rest.serves_mono
        obtain ⟨task, member⟩ := List.exists_mem_of_ne_nil _ filled
        exact ⟨task, List.mem_append_right _ (List.mem_map_of_mem member)⟩
      · have before : offset < distance bindings.length b start := by omega
        rcases ih rest (by omega) (by omega) with serves | ⟨last, _⟩ | ⟨last, earlier, next⟩
        · exact .inl serves
        · refine .inr (.inr ⟨offset, before, ?_⟩)
          rw [last, Nat.mod_add_mod]
        · exact .inr (.inr ⟨last, earlier, next⟩)

/-- A pass that was neither fenced nor broken off: what each backend gave, or would have given,
and what was taken. -/
structure Pass (task : Type) where
  limit : Nat
  now : Time
  answers : Nat → List task
  claimed : Claimed task

variable (bindings) in
/-- The pass as it ran, with `start` as `_next_binding`. -/
def Pass.Ran (start : Nat) (pass : Pass task) : Prop :=
  Visits bindings pass.limit pass.now pass.answers (visiting bindings start) ⟨[], start⟩ pass.claimed

variable (bindings) in
/-- Each pass begins where the one before it left off. -/
def Chained : Nat → List (Pass task) → Prop
  | _, [] => True
  | start, pass :: rest => pass.Ran bindings start ∧ Chained pass.claimed.nextBinding rest

/-- In any interleaving of transactions a pass that commits took nothing, or ran like that. -/
theorem ran_of_run {program : FleetCall queue lock task →
      Txn (Fleet queue) (FleetLock lock) PoolError (FleetAnswer task)}
    (same : program = fleetProgram) {first : Fleet queue} {history : List (FleetEnded queue lock task)}
    {s : FleetSystem queue lock task} (run : System.Run program first history s)
    {entry : FleetEnded queue lock task} (member : entry ∈ history) {instanceId : Uuid} {start : Nat}
    (called : entry.call = .claimPass instanceId bindings start limit now) {claimed : Claimed task}
    (committed : entry.outcome = .ok (.claimed claimed)) :
    claimed = ⟨[], start⟩ ∨ ∃ answers, Pass.Ran bindings start ⟨limit, now, answers, claimed⟩ := by
  subst same
  have given := run.gives entry member _ committed
  rw [called] at given
  obtain ⟨final, given, same⟩ := Txn.gives_bind.mp given
  cases same
  obtain ⟨allowed, _, given⟩ := Txn.gives_bind.mp given
  cases allowed with
  | false => exact .inl given.symm
  | true => exact .inr (visits_of_gives (visiting_nodup start) given)

/-- Where a pass that passes `b` over leaves it. -/
theorem Pass.Ran.nearer {start b : Nat} {pass : Pass task} (ran : pass.Ran bindings start)
    (bound : b < bindings.length) (positive : 1 ≤ pass.limit) (claimable : pass.answers b ≠ []) :
    pass.claimed.serves b ∨ distance bindings.length b pass.claimed.nextBinding <
      distance bindings.length b start := by
  have visits : Visits bindings pass.limit pass.now pass.answers
      ((List.range' 0 bindings.length).map fun offset => (start + offset) % bindings.length)
      ⟨[], start⟩ pass.claimed := by
    rw [← List.range_eq_range']
    exact ran
  rcases visits.turn bound (Nat.zero_add _) (Nat.zero_le _) claimable with
    serves | ⟨_, full⟩ | ⟨last, earlier, next⟩
  · exact .inl serves
  · exact absurd full (by simp; omega)
  · rw [next]
    exact .inr (distance_next bound earlier)

theorem Chained.serves {start b : Nat} {passes : List (Pass task)}
    (chained : Chained bindings start passes) (bound : b < bindings.length)
    (positive : ∀ pass ∈ passes, 1 ≤ pass.limit) (claimable : ∀ pass ∈ passes, pass.answers b ≠ [])
    (enough : distance bindings.length b start < passes.length) :
    ∃ pass ∈ passes, pass.claimed.serves b := by
  induction passes generalizing start with
  | nil => exact absurd enough (Nat.not_lt_zero _)
  | cons pass rest ih =>
    rcases chained.1.nearer bound (positive pass List.mem_cons_self)
      (claimable pass List.mem_cons_self) with serves | nearer
    · exact ⟨pass, List.mem_cons_self, serves⟩
    · rw [List.length_cons] at enough
      obtain ⟨later, member, serves⟩ := ih chained.2
        (fun pass member => positive pass (List.mem_cons_of_mem _ member))
        (fun pass member => claimable pass (List.mem_cons_of_mem _ member)) (by omega)
      exact ⟨later, List.mem_cons_of_mem _ member, serves⟩

theorem Chained.rest {start : Nat} {before after : List (Pass task)}
    (chained : Chained bindings start (before ++ after)) :
    ∃ next, Chained bindings next after := by
  induction before generalizing start with
  | nil => exact ⟨start, chained⟩
  | cons pass before ih => exact ih chained.2

theorem Chained.front {start : Nat} {before after : List (Pass task)}
    (chained : Chained bindings start (before ++ after)) : Chained bindings start before := by
  induction before generalizing start with
  | nil => trivial
  | cons pass before ih => exact ⟨chained.1, ih chained.2⟩

end Turns

namespace Sample

/-- A backend whose queue is never empty. -/
def endless : Claimer Unit Unit Nat := fun limit _ => return List.range limit

/-- One slot, and two queues that are never empty. -/
def turns : List (Pass Nat) := [
  ⟨1, 0, fun _ => [0], ⟨[(0, 0)], 1⟩⟩,
  ⟨1, 1, fun _ => [0], ⟨[(0, 1)], 0⟩⟩]

theorem turns_chained : Chained [endless, endless] 0 turns := by
  refine ⟨?_, ?_, trivial⟩
  · exact .served (by decide) rfl rfl (by decide) (.full (by decide))
  · exact .served (by decide) rfl rfl (by decide) (.full (by decide))

end Sample

end Collector.Workers
