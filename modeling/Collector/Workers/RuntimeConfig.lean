import Collector.Lib.Machine
import Mathlib.Algebra.Order.Floor.Ring
import Mathlib.Data.Rat.Floor

/-!
The intervals of a worker process: the lease, the heartbeat period, the window without a
confirmed heartbeat after which the worker fences itself, the step of the watchdog, and the
budget of one tick. Seconds are rationals.
-/

namespace Collector.Workers
open Collector.Lib

/-- `lease_seconds` and the fields that `__post_init__` checks beside it. -/
structure WorkerRuntimeConfig where
  leaseSeconds : Int := 60
  heartbeatSeconds : ℚ := 20
  claimBatch : Int := 8
  fenceAfterSeconds : Option ℚ := none
  maxConcurrency : Option Int := none
  maxDeferSeconds : ℚ := 24 * 60 * 60
  deriving DecidableEq, Repr

/-- A refused field, with the values its message quotes. -/
inductive WorkerConfigError where
  | leaseSeconds (lease : Int)
  | heartbeatSeconds (heartbeat : ℚ) (lease : Int)
  | maxConcurrency (slots : Int)
  | claimBatch (batch : Int)
  | maxDeferSeconds (ceiling : ℚ)
  | fenceAfterSeconds (fence : ℚ) (lease : Int)
  deriving DecidableEq, Repr

namespace WorkerRuntimeConfig

/-- `MISSED_BEATS_BUDGET`. -/
def missedBeatsBudget : ℚ := 3

/-- `FENCE_RATIO`. -/
def fenceRatio : ℚ := 1 / 2

/-- `WATCHDOG_STEPS`. -/
def watchdogSteps : ℚ := 4

/-- `HEARTBEAT_BUDGET_RATIO`. -/
def heartbeatBudgetRatio : ℚ := 2

/-- `__post_init__`. -/
def postInit (c : WorkerRuntimeConfig) : Except WorkerConfigError Unit := do
  ensure (1 ≤ c.leaseSeconds) (.leaseSeconds c.leaseSeconds)
  ensure (c.heartbeatSeconds * missedBeatsBudget ≤ c.leaseSeconds)
    (.heartbeatSeconds c.heartbeatSeconds c.leaseSeconds)
  c.maxConcurrency.forM fun slots => ensure (1 ≤ slots) (.maxConcurrency slots)
  ensure (1 ≤ c.claimBatch) (.claimBatch c.claimBatch)
  ensure (0 < c.maxDeferSeconds) (.maxDeferSeconds c.maxDeferSeconds)
  c.fenceAfterSeconds.forM fun fence =>
    ensure (0 < fence ∧ fence ≤ c.leaseSeconds) (.fenceAfterSeconds fence c.leaseSeconds)

def fenceAfter (c : WorkerRuntimeConfig) : ℚ :=
  match c.fenceAfterSeconds with
  | some fence => fence
  | none => c.leaseSeconds * fenceRatio

def watchdogInterval (c : WorkerRuntimeConfig) : ℚ :=
  max (min (c.fenceAfter / watchdogSteps) c.heartbeatSeconds) (1 / 100)

def heartbeatTickBudget (c : WorkerRuntimeConfig) : ℚ := c.fenceAfter * heartbeatBudgetRatio

/-- What the derived intervals of an accepted configuration have in common. -/
structure Accepted (c : WorkerRuntimeConfig) : Prop where
  lease : 1 ≤ (c.leaseSeconds : ℚ)
  beats : c.heartbeatSeconds * 3 ≤ c.leaseSeconds
  fence_pos : 0 < c.fenceAfter
  fence_le : c.fenceAfter ≤ c.leaseSeconds

theorem accepted_of_postInit {c : WorkerRuntimeConfig} (ok : c.postInit = .ok ()) : c.Accepted := by
  simp only [postInit, Except.bind_eq_ok, ensure_eq_ok, decide_eq_true_eq] at ok
  obtain ⟨_, lease, _, beats, _, _, _, _, _, _, fence⟩ := ok
  have one : 1 ≤ (c.leaseSeconds : ℚ) := by exact_mod_cast lease
  have window : 0 < c.fenceAfter ∧ c.fenceAfter ≤ c.leaseSeconds := by
    unfold fenceAfter
    cases given : c.fenceAfterSeconds with
    | none =>
      unfold fenceRatio
      constructor <;> simp only <;> linarith
    | some seconds =>
      rw [given] at fence
      simpa using fence
  exact ⟨one, beats, window.1, window.2⟩

theorem watchdogInterval_pos (c : WorkerRuntimeConfig) : 0 < c.watchdogInterval :=
  lt_max_of_lt_right (by norm_num)

/-- The watchdog's wake that follows the end of a window without a confirmed heartbeat. -/
def wakes (c : WorkerRuntimeConfig) : Int := ⌈c.fenceAfter / c.watchdogInterval⌉

/-- The lease covers a window that begins with a tick, the watchdog's step at its end, and a whole
window more up to the wake at which the watchdog cancels. -/
def LeaseCoversFence (c : WorkerRuntimeConfig) : Prop :=
  c.fenceAfter + c.watchdogInterval + c.wakes * c.watchdogInterval ≤ c.leaseSeconds

instance (c : WorkerRuntimeConfig) : Decidable c.LeaseCoversFence :=
  inferInstanceAs (Decidable (_ ≤ _))

end WorkerRuntimeConfig

end Collector.Workers
