import Collector.Workers.Heartbeat
import Mathlib.Tactic.FieldSimp
import Mathlib.Tactic.Linarith

/-!
Fencing against leases. The watchdog cancels at its first wake at which the last confirmed tick
is a window old, but a lease counts from the beginning of a tick, and a tick may take as long as
the watchdog lets it. So a lease has to last for two windows and what the watchdog's steps add to
them, and when it does, no active task is ever found past its lease.
-/

namespace Collector.Workers
open Collector.Persistence

namespace WorkerRuntimeConfig

/-- The wake at which the watchdog fences when `lastOk` is the last tick confirmed. -/
def fenceAt (c : WorkerRuntimeConfig) (lastOk : ℚ) : ℚ :=
  ⌈(lastOk + c.fenceAfter) / c.watchdogInterval⌉ * c.watchdogInterval

theorem le_fenceAt (c : WorkerRuntimeConfig) (lastOk : ℚ) : lastOk + c.fenceAfter ≤ c.fenceAt lastOk := by
  have bound := Int.le_ceil ((lastOk + c.fenceAfter) / c.watchdogInterval)
  rwa [div_le_iff₀ c.watchdogInterval_pos] at bound

theorem fenceAt_lt (c : WorkerRuntimeConfig) (lastOk : ℚ) :
    c.fenceAt lastOk < lastOk + c.fenceAfter + c.watchdogInterval := by
  have positive := c.watchdogInterval_pos
  have bound := Int.ceil_lt_add_one ((lastOk + c.fenceAfter) / c.watchdogInterval)
  calc c.fenceAt lastOk
      < ((lastOk + c.fenceAfter) / c.watchdogInterval + 1) * c.watchdogInterval :=
        mul_lt_mul_of_pos_right bound positive
    _ = lastOk + c.fenceAfter + c.watchdogInterval := by field_simp

theorem fenceAt_mono (c : WorkerRuntimeConfig) {p q : ℚ} (later : p ≤ q) : c.fenceAt p ≤ c.fenceAt q := by
  have positive := c.watchdogInterval_pos
  unfold fenceAt
  gcongr

/-- A wake that is not past the window is not past the wake that fences. -/
theorem wake_le_fenceAt (c : WorkerRuntimeConfig) {lastOk : ℚ} {n : Int}
    (open_ : n * c.watchdogInterval - c.watchdogInterval < lastOk + c.fenceAfter) :
    n * c.watchdogInterval ≤ c.fenceAt lastOk := by
  have positive := c.watchdogInterval_pos
  have before : ((n - 1 : Int) : ℚ) < (lastOk + c.fenceAfter) / c.watchdogInterval := by
    rw [lt_div_iff₀ positive]
    push_cast
    linarith
  have next : n ≤ ⌈(lastOk + c.fenceAfter) / c.watchdogInterval⌉ := by
    have := Int.lt_ceil.mpr before
    omega
  unfold fenceAt
  gcongr

theorem wake_lt_window (c : WorkerRuntimeConfig) {lastOk : ℚ} {n : Int}
    (earlier : n * c.watchdogInterval < c.fenceAt lastOk) :
    n * c.watchdogInterval < lastOk + c.fenceAfter := by
  have positive := c.watchdogInterval_pos
  have below : n < ⌈(lastOk + c.fenceAfter) / c.watchdogInterval⌉ := by
    have := lt_of_mul_lt_mul_right earlier positive.le
    exact_mod_cast this
  rwa [Int.lt_ceil, lt_div_iff₀ positive] at below

theorem fenceAt_wake (c : WorkerRuntimeConfig) (n : Int) :
    c.fenceAt (n * c.watchdogInterval) = (n + c.wakes) * c.watchdogInterval := by
  have positive := c.watchdogInterval_pos
  have split : (n * c.watchdogInterval + c.fenceAfter) / c.watchdogInterval =
      n + c.fenceAfter / c.watchdogInterval := by
    field_simp
  unfold fenceAt wakes
  rw [split, Int.ceil_intCast_add]
  push_cast
  ring

/-- A tick that ends before the watchdog fences puts the next fence within a lease of the tick
confirmed before it. -/
theorem fenceAt_lt_lease {c : WorkerRuntimeConfig} (covers : c.LeaseCoversFence) {p q : ℚ}
    (inTime : q ≤ c.fenceAt p) : c.fenceAt q < p + c.leaseSeconds := by
  have covers : c.fenceAfter + c.watchdogInterval + c.wakes * c.watchdogInterval ≤ c.leaseSeconds :=
    covers
  have first := c.fenceAt_lt p
  calc c.fenceAt q
      ≤ c.fenceAt (c.fenceAt p) := c.fenceAt_mono inTime
    _ = c.fenceAt p + c.wakes * c.watchdogInterval := by
      unfold fenceAt
      rw [← fenceAt, fenceAt_wake]
      ring
    _ < p + c.leaseSeconds := by linarith

end WorkerRuntimeConfig

/-- The tick in flight: its beginning, and the jobs whose leases it does not answer for. -/
def HeartbeatPhase.tick : HeartbeatPhase → Option (ℚ × List Uuid)
  | .asleep _ => none
  | .ticking start jobs => some (start, jobs)
  | .extended start lost => some (start, lost)

namespace Clockwork
open WorkerRuntimeConfig

/-- The watchdog's next wake comes before any active lease ends. -/
structure Guarded (c : WorkerRuntimeConfig) (s : Clockwork) : Prop where
  wakes : ∃ n : Int, s.wakeAt = n * c.watchdogInterval
  before : s.now ≤ s.wakeAt
  since : s.wakeAt - c.watchdogInterval ≤ s.now
  confirmed : s.lastOk ≤ s.now
  idle : s.fenced = true → s.active = []
  watched : s.fenced = false → s.wakeAt - c.watchdogInterval < s.lastOk + c.fenceAfter
  leases : ∀ job ∈ s.active, c.fenceAt s.lastOk < s.leases job
  tick : ∀ start exempt, s.phase.tick = some (start, exempt) → s.lastOk ≤ start ∧ start ≤ s.now ∧
    ∀ job ∈ s.active, job ∈ exempt ∨ start + c.leaseSeconds ≤ s.leases job

namespace Guarded
variable {c : WorkerRuntimeConfig} {s : Clockwork}

theorem sleep (guarded : Guarded c s) : Guarded c (s.sleep c) where
  __ := guarded
  tick := fun _ _ none => by cases none

theorem fence (guarded : Guarded c s) : Guarded c { s with fenced := true, active := [] } where
  __ := guarded
  idle := fun _ => rfl
  watched := fun down => by cases down
  leases := fun _ member => by cases member
  tick := by
    intro start exempt found
    obtain ⟨begun, past, -⟩ := guarded.tick start exempt found
    exact ⟨begun, past, fun _ member => by cases member⟩

theorem fenceCheck (guarded : Guarded c s) : Guarded c (fenceIfLeaseUnconfirmed c s) := by
  unfold fenceIfLeaseUnconfirmed
  split_ifs
  · exact guarded
  · exact guarded
  · exact guarded.fence

/-- The watchdog has looked and found no reason to fence, or the fence was up. -/
theorem rewake (guarded : Guarded c s) (due : s.now = s.wakeAt)
    (inTime : s.fenced = false → s.now - s.lastOk < c.fenceAfter) :
    Guarded c { s with wakeAt := s.now + c.watchdogInterval } where
  __ := guarded
  wakes := by
    obtain ⟨n, at_⟩ := guarded.wakes
    refine ⟨n + 1, ?_⟩
    push_cast
    rw [due, at_]
    ring
  before := by
    have positive := c.watchdogInterval_pos
    show s.now ≤ s.now + c.watchdogInterval
    linarith
  since := by
    show s.now + c.watchdogInterval - c.watchdogInterval ≤ s.now
    linarith
  watched := by
    intro down
    have window := inTime down
    show s.now + c.watchdogInterval - c.watchdogInterval < s.lastOk + c.fenceAfter
    linarith

theorem wake (guarded : Guarded c s) (due : s.now = s.wakeAt) :
    Guarded c (fenceIfLeaseUnconfirmed c { s with wakeAt := s.now + c.watchdogInterval }) := by
  unfold fenceIfLeaseUnconfirmed
  split_ifs with up window
  · exact guarded.rewake due fun down => by simp_all
  · exact guarded.rewake due fun _ => window
  · exact (guarded.fence.rewake due fun down => by cases down)

theorem elapse (guarded : Guarded c s) {seconds : ℚ} (forward : 0 ≤ seconds)
    (due : s.now + seconds ≤ s.wakeAt) : Guarded c { s with now := s.now + seconds } where
  __ := guarded
  before := due
  since := guarded.since.trans (by simp only; linarith)
  confirmed := guarded.confirmed.trans (by simp only; linarith)
  tick := by
    intro start exempt found
    obtain ⟨begun, past, held⟩ := guarded.tick start exempt found
    exact ⟨begun, past.trans (by simp only; linarith), held⟩

theorem begin (guarded : Guarded c s) : Guarded c { s with phase := .ticking s.now s.active } where
  __ := guarded
  tick := by
    intro start exempt found
    cases found
    exact ⟨guarded.confirmed, le_refl _, fun _ member => .inl member⟩

/-- Where a task is active, the watchdog has not come to the wake at which it fences. -/
theorem inTime (guarded : Guarded c s) {job : Uuid} (member : job ∈ s.active) :
    s.now ≤ c.fenceAt s.lastOk := by
  have down : s.fenced = false := by
    rw [Bool.eq_false_iff]
    intro up
    rw [guarded.idle up] at member
    cases member
  obtain ⟨n, at_⟩ := guarded.wakes
  have watched := guarded.watched down
  rw [at_] at watched
  calc s.now ≤ s.wakeAt := guarded.before
    _ = n * c.watchdogInterval := at_
    _ ≤ c.fenceAt s.lastOk := c.wake_le_fenceAt watched

section
variable (accepted : c.Accepted) (covers : c.LeaseCoversFence)
include accepted covers

/-- A lease written for a beginning since the last confirmed tick outlasts the fence. -/
theorem fresh {lastOk start : ℚ} (begun : lastOk ≤ start) :
    c.fenceAt lastOk < start + c.leaseSeconds := by
  have ahead : lastOk ≤ c.fenceAt lastOk := by
    have window := c.le_fenceAt lastOk
    have positive := accepted.fence_pos
    linarith
  have room := fenceAt_lt_lease covers ahead
  linarith

theorem extend (guarded : Guarded c s) {start : ℚ} {jobs : List Uuid} (lost : List Uuid)
    (ticking : s.phase = .ticking start jobs) :
    Guarded c { s.writeLeases c start (jobs.filter (· ∉ lost)) with phase := .extended start lost } := by
  obtain ⟨begun, past, held⟩ := guarded.tick start jobs (by rw [ticking]; rfl)
  exact {
    __ := guarded
    leases := by
      intro job member
      show _ < ite _ _ _
      split_ifs
      · exact fresh accepted covers begun
      · exact guarded.leases job member
    tick := by
      intro start' exempt found
      cases found
      refine ⟨begun, past, fun job member => ?_⟩
      show job ∈ lost ∨ _ ≤ ite _ _ _
      split_ifs with kept
      · exact .inr (le_refl _)
      · rcases held job member with inTick | since
        · left
          by_contra notLost
          exact kept (List.mem_filter.mpr ⟨inTick, by simpa using notLost⟩)
        · exact .inr since }

/-- The tick's leases count from its beginning, the next window from its end. -/
theorem confirm (guarded : Guarded c s) {start : ℚ} {lost : List Uuid}
    (extended : s.phase = .extended start lost) :
    Guarded c { s with
      lastOk := s.now, fenced := false, phase := .asleep s.now
      active := s.active.filter (· ∉ lost) } := by
  obtain ⟨begun, past, held⟩ := guarded.tick start lost (by rw [extended]; rfl)
  exact {
    __ := guarded
    confirmed := le_refl _
    idle := fun up => by cases up
    watched := by
      intro _
      have since := guarded.since
      have positive := accepted.fence_pos
      show s.wakeAt - c.watchdogInterval < s.now + c.fenceAfter
      linarith
    leases := by
      intro job member
      simp only [List.mem_filter, decide_eq_true_eq] at member
      have lease := (held job member.1).resolve_left member.2
      have room := fenceAt_lt_lease covers (guarded.inTime member.1)
      show c.fenceAt s.now < s.leases job
      linarith
    tick := fun _ _ none => by cases none }

theorem claim (guarded : Guarded c s) (jobs : List Uuid) (down : s.fenced = false) :
    Guarded c { s.writeLeases c s.now jobs with active := jobs ++ s.active.filter (· ∉ jobs) } := by
  have split : ∀ job ∈ jobs ++ s.active.filter (· ∉ jobs), job ∈ jobs ∨ job ∈ s.active ∧ job ∉ jobs := by
    simp
  exact {
    __ := guarded
    idle := fun up => by simp_all [writeLeases]
    leases := by
      intro job member
      show _ < ite _ _ _
      split_ifs with taken
      · exact fresh accepted covers guarded.confirmed
      · exact guarded.leases job ((split job member).resolve_left taken).1
    tick := by
      intro start exempt found
      obtain ⟨begun, past, held⟩ := guarded.tick start exempt found
      refine ⟨begun, past, fun job member => ?_⟩
      show job ∈ exempt ∨ _ ≤ ite _ _ _
      split_ifs with taken
      · right
        linarith
      · exact held job ((split job member).resolve_left taken).1 }

end

theorem stop (guarded : Guarded c s) : Guarded c { s with stopped := true } where
  __ := guarded

theorem finish (guarded : Guarded c s) (job : Uuid) :
    Guarded c { s with active := s.active.filter (· ≠ job) } where
  __ := guarded
  idle := by
    intro up
    simp [guarded.idle up]
  leases := fun other member => guarded.leases other (List.mem_of_mem_filter member)
  tick := by
    intro start exempt found
    obtain ⟨begun, past, held⟩ := guarded.tick start exempt found
    exact ⟨begun, past, fun other member => held other (List.mem_of_mem_filter member)⟩

theorem initial (accepted : c.Accepted) (leases : Uuid → ℚ) : Guarded c (Clockwork.initial c leases) where
  wakes := ⟨1, by simp [Clockwork.initial, Clockwork.sleep]⟩
  before := c.watchdogInterval_pos.le
  since := by simp [Clockwork.initial, Clockwork.sleep]
  confirmed := le_refl _
  idle := fun up => by cases up
  watched := by
    intro _
    have positive := accepted.fence_pos
    simp [Clockwork.initial, Clockwork.sleep, positive]
  leases := fun _ member => by cases member
  tick := fun _ _ none => by cases none

theorem step (accepted : c.Accepted) (covers : c.LeaseCoversFence) (guarded : Guarded c s)
    {event : ClockEvent} {next : Clockwork} (taken : s.step c event = some next) : Guarded c next := by
  cases event with
  | elapse seconds =>
    simp only [Clockwork.step, Option.ite_none_right_eq_some, Option.some.injEq] at taken
    obtain ⟨⟨forward, due, -⟩, rfl⟩ := taken
    exact guarded.elapse forward due
  | wake =>
    simp only [Clockwork.step, Option.ite_none_right_eq_some, Option.some.injEq] at taken
    obtain ⟨due, rfl⟩ := taken
    exact guarded.wake due
  | tickBegin =>
    simp only [Clockwork.step] at taken
    split at taken
    · simp only [Option.ite_none_right_eq_some, Option.some.injEq] at taken
      obtain ⟨-, rfl⟩ := taken
      exact guarded.begin
    · cases taken
  | extend lost =>
    simp only [Clockwork.step] at taken
    split at taken
    · rename_i start jobs ticking
      simp only [Option.ite_none_right_eq_some, Option.some.injEq] at taken
      obtain ⟨-, rfl⟩ := taken
      exact guarded.extend accepted covers lost ticking
    · cases taken
  | confirm =>
    simp only [Clockwork.step] at taken
    split at taken
    · rename_i start lost extended
      cases taken
      exact (guarded.confirm accepted covers extended).sleep
    · cases taken
  | tickFail =>
    simp only [Clockwork.step] at taken
    split at taken
    · cases taken
    · cases taken
      exact guarded.fenceCheck.sleep
  | tickReject =>
    simp only [Clockwork.step] at taken
    split at taken
    · cases taken
      exact guarded.stop.sleep
    · cases taken
  | tickTimeout =>
    simp only [Clockwork.step] at taken
    split at taken
    · cases taken
    · simp only [Option.ite_none_right_eq_some, Option.some.injEq] at taken
      obtain ⟨-, rfl⟩ := taken
      exact guarded.fenceCheck.sleep
  | claim jobs =>
    simp only [Clockwork.step, Option.ite_none_right_eq_some, Option.some.injEq] at taken
    obtain ⟨⟨down, -⟩, rfl⟩ := taken
    exact guarded.claim accepted covers jobs down
  | finish job =>
    cases taken
    exact guarded.finish job

theorem covered (guarded : Guarded c s) : s.Covered := by
  intro job member
  exact (guarded.inTime member).trans_lt (guarded.leases job member)

end Guarded

theorem guarded_of_reach {c : WorkerRuntimeConfig} {s : Clockwork} (accepted : c.Accepted)
    (covers : c.LeaseCoversFence) (reached : Reach c s) : Guarded c s := by
  induction reached with
  | start leases => exact .initial accepted leases
  | step _ taken ih => exact ih.step accepted covers taken

end Clockwork

end Collector.Workers
