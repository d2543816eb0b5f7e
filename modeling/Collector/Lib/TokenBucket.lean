import Mathlib.Algebra.Order.Field.Basic
import Mathlib.Tactic.Linarith
import Mathlib.Tactic.Ring

/-!
Token buckets. `reserve` is the most that a bucket can still hand out up to a moment: what it
holds and what it earns until then. Refilling, resetting and handing out never raise it, so what
was handed out by the moment is at most the reserve at the start.
-/

namespace Collector.Lib
variable {K : Type} [Field K] [LinearOrder K] [IsStrictOrderedRing K]

/-- The tokens in a bucket and the moment from which it earns more. -/
structure Level (K : Type) where
  tokens : K
  since : K

/-- What the bucket holds and will have earned by the moment `t`. -/
def Level.reserve (rate : K) (level : Level K) (t : K) : K :=
  level.tokens + rate * max (t - level.since) 0

theorem reserve_nonneg {rate t : K} {level : Level K} (positive : 0 ≤ rate)
    (some : 0 ≤ level.tokens) : 0 ≤ level.reserve rate t :=
  add_nonneg some (mul_nonneg positive (le_max_right _ _))

/-- A refill up to `now` credits no more than was earned since the last one. -/
theorem reserve_refill {rate now t granted : K} {level next : Level K}
    (past : level.since ≤ now) (within : now ≤ t) (since : next.since = now)
    (credited : next.tokens + granted ≤ level.tokens + rate * (now - level.since)) :
    granted + next.reserve rate t ≤ level.reserve rate t := by
  have before : max (t - level.since) 0 = t - level.since :=
    max_eq_left (sub_nonneg.mpr (past.trans within))
  have after : max (t - next.since) 0 = t - now := by
    rw [since]
    exact max_eq_left (sub_nonneg.mpr within)
  unfold Level.reserve
  rw [before, after]
  calc granted + (next.tokens + rate * (t - now))
      = (next.tokens + granted) + rate * (t - now) := by ring
    _ ≤ (level.tokens + rate * (now - level.since)) + rate * (t - now) := by
        exact add_le_add_left credited _
    _ = level.tokens + rate * (t - level.since) := by ring

/-- A bucket with no more tokens that earns from no earlier moment on. -/
theorem reserve_mono {rate t : K} {level next : Level K} (positive : 0 ≤ rate)
    (tokens : next.tokens ≤ level.tokens) (since : level.since ≤ next.since) :
    next.reserve rate t ≤ level.reserve rate t := by
  unfold Level.reserve
  apply add_le_add tokens
  apply mul_le_mul_of_nonneg_left _ positive
  exact max_le_max (sub_le_sub_left since t) le_rfl

end Collector.Lib
