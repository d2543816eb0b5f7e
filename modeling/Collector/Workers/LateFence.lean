import Collector.Workers.SelfFencing
import Mathlib.Algebra.Order.Archimedean.Basic

/-!
When a lease does not cover two windows and what the watchdog's steps add, there is a timing in
which a task outlives its lease: it is claimed as one tick ends, the next tick begins at once and
lasts until the watchdog would fence, and no tick is confirmed after that.
-/

namespace Collector.Workers
open Collector.Persistence WorkerRuntimeConfig

namespace Clockwork
variable {c : WorkerRuntimeConfig} {s : Clockwork}

theorem reach_elapse (reached : Reach c s) {t : ℚ} (ahead : s.now ≤ t) (awake : t ≤ s.wakeAt)
    (due : t ≤ s.beatDue c) : Reach c { s with now := t } := by
  have sum : s.now + (t - s.now) = t := by ring
  have forward : 0 ≤ t - s.now := by linarith
  have taken : s.step c (.elapse (t - s.now)) = some { s with now := t } := by
    simp [Clockwork.step, sum, forward, awake, due]
  exact .step reached taken

/-- The fence has nothing to cancel, or its window is still open. -/
theorem fenceCheck_quiet
    (quiet : s.active = [] ∨ s.fenced = false ∧ s.now - s.lastOk < c.fenceAfter) :
    ∃ up, fenceIfLeaseUnconfirmed c s = { s with fenced := up } ∧ (s.active ≠ [] → up = false) := by
  unfold fenceIfLeaseUnconfirmed
  split_ifs with up window
  · exact ⟨true, by simp [← up], fun busy => by simp_all⟩
  · have down : s.fenced = false := by simpa using up
    exact ⟨false, by rw [← down], fun _ => rfl⟩
  · rcases quiet with idle | ⟨-, open_⟩
    · exact ⟨true, by simp [idle], fun busy => absurd idle busy⟩
    · exact absurd open_ window

/-- Time can pass up to the fence, the watchdog's wakes on the way included. -/
theorem reach_pass (n : Nat) {s : Clockwork} (reached : Reach c s) {m : Int} {t : ℚ}
    (at_ : s.wakeAt = m * c.watchdogInterval)
    (quiet : s.active = [] ∨ s.fenced = false ∧ t ≤ c.fenceAt s.lastOk)
    (ahead : s.now ≤ t) (awake : s.now ≤ s.wakeAt) (due : t ≤ s.beatDue c)
    (near : t ≤ s.wakeAt + n * c.watchdogInterval) :
    ∃ (k : Int) (up : Bool), Reach c { s with now := t, wakeAt := k * c.watchdogInterval, fenced := up } ∧
      t ≤ k * c.watchdogInterval ∧ (s.active ≠ [] → up = false) := by
  induction n generalizing s m with
  | zero =>
    have stops : t ≤ s.wakeAt := by simpa using near
    refine ⟨m, s.fenced, ?_, at_ ▸ stops, ?_⟩
    · rw [← at_]
      exact reach_elapse reached ahead stops due
    · intro busy
      exact (quiet.resolve_left busy).1
  | succ n ih =>
    rcases le_or_gt t s.wakeAt with stops | goes
    · exact ih reached at_ quiet ahead awake due (by nlinarith [c.watchdogInterval_pos])
    · have woken := reach_elapse reached awake (le_refl _) (goes.le.trans due)
      have still : s.active = [] ∨ s.fenced = false ∧ s.wakeAt - s.lastOk < c.fenceAfter := by
        rcases quiet with idle | ⟨down, inTime⟩
        · exact .inl idle
        · refine .inr ⟨down, ?_⟩
          rw [at_] at goes ⊢
          have open_ := c.wake_lt_window (goes.trans_le inTime)
          linarith
      obtain ⟨up, checked, calm⟩ := fenceCheck_quiet
        (s := { s with now := s.wakeAt, wakeAt := s.wakeAt + c.watchdogInterval }) still
      have taken : { s with now := s.wakeAt }.step c .wake = some
          { s with now := s.wakeAt, wakeAt := s.wakeAt + c.watchdogInterval, fenced := up } := by
        simp only [Clockwork.step, if_true]
        exact congrArg some checked
      have quiet : s.active = [] ∨ up = false ∧ t ≤ c.fenceAt s.lastOk := by
        by_cases idle : s.active = []
        · exact .inl idle
        · exact .inr ⟨calm idle, (quiet.resolve_left idle).2⟩
      have next : s.wakeAt + c.watchdogInterval = ((m + 1 : Int) : ℚ) * c.watchdogInterval := by
        push_cast
        rw [at_]
        ring
      apply ih (.step woken taken) next quiet goes.le (by simp [c.watchdogInterval_pos.le]) due
      push_cast at near
      show t ≤ s.wakeAt + c.watchdogInterval + n * c.watchdogInterval
      linarith

/-- The watchdog's wakes are enough for any distance. -/
theorem reach_until (reached : Reach c s) {m : Int} {t : ℚ}
    (at_ : s.wakeAt = m * c.watchdogInterval) (awake : s.now ≤ s.wakeAt)
    (quiet : s.active = [] ∨ s.fenced = false ∧ t ≤ c.fenceAt s.lastOk)
    (ahead : s.now ≤ t) (due : t ≤ s.beatDue c) :
    ∃ (k : Int) (up : Bool), Reach c { s with now := t, wakeAt := k * c.watchdogInterval, fenced := up } ∧
      t ≤ k * c.watchdogInterval ∧ (s.active ≠ [] → up = false) := by
  obtain ⟨n, far⟩ := exists_nat_ge ((t - s.wakeAt) / c.watchdogInterval)
  rw [div_le_iff₀ c.watchdogInterval_pos] at far
  exact reach_pass n reached at_ quiet ahead awake due (by linarith)

end Clockwork

namespace WorkerRuntimeConfig
variable {c : WorkerRuntimeConfig}

theorem wakes_lt (c : WorkerRuntimeConfig) :
    c.wakes * c.watchdogInterval < c.fenceAfter + c.watchdogInterval := by
  have bound := c.fenceAt_lt ((0 : Int) * c.watchdogInterval)
  rw [c.fenceAt_wake 0] at bound
  simpa using bound

/-- A lease that is too short is short because of the window, not of the watchdog's least step. -/
theorem slack (accepted : c.Accepted) (short : ¬ c.LeaseCoversFence) :
    4 * c.watchdogInterval ≤ c.fenceAfter ∧ c.heartbeatSeconds ≤ c.fenceAfter := by
  have short : (c.leaseSeconds : ℚ) < c.fenceAfter + c.watchdogInterval + c.wakes * c.watchdogInterval :=
    not_le.mp short
  have ceiling := c.wakes_lt
  have lease := accepted.lease
  have beats := accepted.beats
  have step : 4 * c.watchdogInterval ≤ c.fenceAfter := by
    by_contra wide
    have least : c.watchdogInterval = 1 / 100 := by
      unfold watchdogInterval watchdogSteps at wide ⊢
      apply max_eq_right
      by_contra above
      have narrow := min_le_left (c.fenceAfter / 4) c.heartbeatSeconds
      rw [max_eq_left (not_le.mp above).le] at wide
      apply wide
      linarith
    rw [least] at wide ceiling short
    linarith
  constructor
  · exact step
  · linarith

/-- An instant for a tick to end, from `base` on, such that the fence that follows it comes late. -/
theorem exists_late (short : ¬ c.LeaseCoversFence) (base : ℚ) :
    ∃ a : ℚ, base ≤ a ∧ a ≤ base + 2 * c.watchdogInterval ∧
      a + c.leaseSeconds < c.fenceAt (c.fenceAt a) := by
  have positive := c.watchdogInterval_pos
  obtain ⟨gap, gapped⟩ : ∃ gap : ℚ,
      gap = c.fenceAfter + c.watchdogInterval + c.wakes * c.watchdogInterval - c.leaseSeconds := ⟨_, rfl⟩
  have room : 0 < gap := by
    have short := not_le.mp short
    rw [gapped]
    linarith
  obtain ⟨ε, small⟩ : ∃ ε : ℚ, 0 < ε ∧ ε < gap ∧ ε ≤ c.watchdogInterval := by
    refine ⟨min gap c.watchdogInterval / 2, ?_, ?_, ?_⟩
    · have := lt_min room positive
      linarith
    · have := min_le_left gap c.watchdogInterval
      linarith
    · have := min_le_right gap c.watchdogInterval
      linarith
  obtain ⟨shortly, below, within⟩ := small
  obtain ⟨n, ceiling⟩ : ∃ n : Int, n = ⌈(base + c.fenceAfter) / c.watchdogInterval⌉ := ⟨_, rfl⟩
  have above : base + c.fenceAfter ≤ n * c.watchdogInterval := by
    rw [ceiling]
    exact c.le_fenceAt base
  have under : n * c.watchdogInterval < base + c.fenceAfter + c.watchdogInterval := by
    rw [ceiling]
    exact c.fenceAt_lt base
  have fences : c.fenceAt (n * c.watchdogInterval - c.fenceAfter + ε) =
      ((n + 1 : Int) : ℚ) * c.watchdogInterval := by
    unfold fenceAt
    congr 2
    rw [Int.ceil_eq_iff, lt_div_iff₀ positive, div_le_iff₀ positive]
    push_cast
    constructor <;> linarith
  refine ⟨n * c.watchdogInterval - c.fenceAfter + ε, by linarith, by linarith, ?_⟩
  rw [fences, fenceAt_wake]
  push_cast
  linarith

end WorkerRuntimeConfig

namespace Clockwork
variable {c : WorkerRuntimeConfig}

theorem reach_tickBegin {s : Clockwork} (reached : Reach c s) (due : s.phase = .asleep s.now) :
    Reach c { s with phase := .ticking s.now s.active } := by
  have taken : s.step c .tickBegin = some { s with phase := .ticking s.now s.active } := by
    simp [Clockwork.step, due]
  exact .step reached taken

/-- A tick that finds every lease and is confirmed. -/
theorem reach_confirm {s : Clockwork} (reached : Reach c s) {start : ℚ} {jobs : List Uuid}
    (ticking : s.phase = .ticking start jobs) :
    Reach c (sleep c { s.writeLeases c start jobs with lastOk := s.now, fenced := false }) := by
  have extended : s.step c (.extend []) =
      some { s.writeLeases c start jobs with phase := .extended start [] } := by
    simp [Clockwork.step, ticking]
  have confirmed : { s.writeLeases c start jobs with phase := .extended start [] }.step c .confirm =
      some (sleep c { s.writeLeases c start jobs with lastOk := s.now, fenced := false }) := by
    simp [Clockwork.step, writeLeases, sleep]
  exact .step (.step reached extended) confirmed

/-- At `a` a tick was confirmed, the next one begins at once, and nothing is active. -/
structure Relieved (c : WorkerRuntimeConfig) (a : ℚ) (s : Clockwork) : Prop where
  now : s.now = a
  lastOk : s.lastOk = a
  fenced : s.fenced = false
  stopped : s.stopped = false
  active : s.active = []
  phase : s.phase = .asleep a
  wakes : ∃ k : Int, s.wakeAt = k * c.watchdogInterval
  before : a ≤ s.wakeAt

/-- The first tick may go on past the next deadline: a worker without tasks has nothing to fence. -/
theorem reach_relieved {a : ℚ} (overdue : 2 * c.heartbeatSeconds ≤ a)
    (begun : max c.heartbeatSeconds 0 ≤ a) (within : a ≤ max c.heartbeatSeconds 0 + c.heartbeatTickBudget) :
    ∃ s, Reach c s ∧ Relieved c a s := by
  obtain ⟨due, at_⟩ : ∃ due, due = max c.heartbeatSeconds 0 := ⟨_, rfl⟩
  rw [← at_] at begun within
  have booted := Reach.start (c := c) fun _ => 0
  have asleep : (initial c fun _ => 0).phase = .asleep due := by
    simp [initial, sleep, at_]
  obtain ⟨k, up, reached, near, -⟩ := reach_until (t := due) (m := 1) booted
    (by simp [initial, sleep]) c.watchdogInterval_pos.le (.inl rfl)
    (by rw [at_]; exact le_max_right _ _) (by simp [beatDue, asleep])
  have ticking := reach_tickBegin reached asleep
  obtain ⟨m, up, reached, near, -⟩ := reach_until ticking rfl near (.inl rfl) begun within
  refine ⟨_, reach_confirm reached rfl, rfl, rfl, rfl, rfl, rfl, ?_, ⟨m, rfl⟩, near⟩
  have late : c.heartbeatSeconds + c.heartbeatSeconds - a ≤ 0 := by linarith
  simp [sleep, initial, writeLeases, late]

/-- No tick needs to be confirmed before the watchdog fences. -/
theorem reach_hanging {s : Clockwork} (reached : Reach c s) {m : Int} {due t : ℚ}
    (asleep : s.phase = .asleep due) (waits : s.now ≤ due)
    (at_ : s.wakeAt = m * c.watchdogInterval) (awake : s.now ≤ s.wakeAt) (busy : s.active ≠ [])
    (down : s.fenced = false) (inTime : t ≤ c.fenceAt s.lastOk) (ahead : s.now ≤ t)
    (within : t ≤ s.now + c.heartbeatTickBudget) :
    ∃ next, Reach c next ∧ next.now = t ∧ next.active = s.active ∧ next.leases = s.leases := by
  rcases le_total t due with sleeps | ticks
  · obtain ⟨k, up, reached, -, -⟩ := reach_until reached at_ awake (.inr ⟨down, inTime⟩) ahead
      (by simpa [beatDue, asleep] using sleeps)
    exact ⟨_, reached, rfl, rfl, rfl⟩
  · obtain ⟨k, up, reached, near, calm⟩ := reach_until (t := due) reached at_ awake
      (.inr ⟨down, ticks.trans inTime⟩) waits (by simp [beatDue, asleep])
    have ticking := reach_tickBegin reached asleep
    have budget : t ≤ due + c.heartbeatTickBudget := by linarith
    obtain ⟨k, up, reached, -, -⟩ := reach_until ticking rfl near (.inr ⟨calm busy, inTime⟩) ticks budget
    exact ⟨_, reached, rfl, rfl, rfl⟩

/-- The task claimed at `a` is extended by a tick that ends as the watchdog would fence, and is
still active when the watchdog comes the next time. -/
theorem reach_late {a : ℚ} {s : Clockwork} (reached : Reach c s) (relieved : Relieved c a s)
    (first : c.fenceAt a ≤ a + c.heartbeatTickBudget)
    (second : c.fenceAt (c.fenceAt a) ≤ c.fenceAt a + c.heartbeatTickBudget) (positive : 0 < c.fenceAfter) :
    ∃ s, Reach c s ∧ s.now = c.fenceAt (c.fenceAt a) ∧ s.active = [0] ∧ s.leases 0 = a + c.leaseSeconds := by
  obtain ⟨k, at_⟩ := relieved.wakes
  have claimed : s.step c (.claim [0]) = some { s.writeLeases c a [0] with active := [0] } := by
    simp [Clockwork.step, relieved.fenced, relieved.stopped, relieved.active, relieved.now]
  have ticking := reach_tickBegin (.step reached claimed) (by simp [writeLeases, relieved.phase, relieved.now])
  have ahead := c.le_fenceAt a
  obtain ⟨m, up, reached, near, calm⟩ := reach_until (t := c.fenceAt a) ticking at_
    (relieved.now.trans_le relieved.before) (.inr ⟨relieved.fenced, by simp [writeLeases, relieved.lastOk]⟩)
    (by simp only [writeLeases, relieved.now]; linarith)
    (by simpa [beatDue, writeLeases, relieved.now] using first)
  have confirmed := reach_confirm reached rfl
  have ahead' := c.le_fenceAt (c.fenceAt a)
  obtain ⟨last, reached, now, active, leases⟩ := reach_hanging (t := c.fenceAt (c.fenceAt a)) confirmed
    rfl (by simp [sleep, writeLeases]) rfl near (by simp [sleep, writeLeases]) rfl (le_refl _)
    (by simp only [sleep, writeLeases]; linarith) second
  refine ⟨last, reached, now, active, ?_⟩
  rw [leases]
  simp [sleep, writeLeases, relieved.now]

theorem uncovered_of_short (accepted : c.Accepted) (short : ¬ c.LeaseCoversFence) :
    ∃ s, Reach c s ∧ ¬ s.Covered := by
  obtain ⟨step, beats⟩ := slack accepted short
  have positive := accepted.fence_pos
  have budget : c.heartbeatTickBudget = c.fenceAfter * 2 := rfl
  obtain ⟨a, later, sooner, past⟩ := exists_late short (max (2 * c.heartbeatSeconds) 0)
  have twice : 2 * c.heartbeatSeconds ≤ max (2 * c.heartbeatSeconds) 0 := le_max_left _ _
  have zero : 0 ≤ max (2 * c.heartbeatSeconds) 0 := le_max_right _ _
  have begun : max c.heartbeatSeconds 0 ≤ a := by
    apply max_le <;> linarith
  have within : a ≤ max c.heartbeatSeconds 0 + c.heartbeatTickBudget := by
    rcases le_total c.heartbeatSeconds 0 with atOnce | spaced
    · rw [max_eq_right (by linarith)] at sooner ⊢
      linarith
    · rw [max_eq_left (by linarith)] at sooner ⊢
      linarith
  obtain ⟨s, reached, relieved⟩ := reach_relieved (twice.trans later) begun within
  have first := c.fenceAt_lt a
  have second := c.fenceAt_lt (c.fenceAt a)
  obtain ⟨last, reached, now, active, lease⟩ := reach_late reached relieved
    (by linarith) (by linarith) positive
  refine ⟨last, reached, fun covered => ?_⟩
  have held := covered 0 (by simp [active])
  rw [now, lease] at held
  linarith

def quickFence : WorkerRuntimeConfig := { fenceAfterSeconds := some 20 }

/-- A wake every step of the watchdog. -/
def wakesEvery (seconds : ℚ) (count : Nat) : List ClockEvent :=
  (List.replicate count [.elapse seconds, .wake]).flatten

/-- The defaults: a task claimed at 46 and extended by the tick that ends at 82. -/
def lateFenceEvents : List ClockEvent :=
  wakesEvery (15 / 2) 2 ++ [.elapse 5, .tickBegin, .elapse (5 / 2), .wake] ++
    wakesEvery (15 / 2) 3 ++ [.elapse 1, .extend [], .confirm, .claim [7], .tickBegin,
      .elapse (13 / 2), .wake] ++ wakesEvery (15 / 2) 3 ++
    [.elapse 7, .extend [], .confirm, .tickBegin, .elapse (1 / 2), .wake] ++
    wakesEvery (15 / 2) 3 ++ [.elapse 5]

end Clockwork

end Collector.Workers
