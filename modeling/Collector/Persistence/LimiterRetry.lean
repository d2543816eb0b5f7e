import Collector.Lib.Rounding
import Collector.Persistence.LimiterPolling

/-!
The `retry_after` of a denial for the rate. It is the time the missing tokens take to refill, rounded
to whole microseconds as `timedelta` does, and a single acquire at that time finds a token when the
rounding did not go down and the bucket has room for a token. Refill rates are whole multiples of
`0.000001`, and because of this the errors of the decimal quotient and of the floats on the way show
only where the exact wait lies half way between two microseconds.
-/

namespace Collector.Persistence.Limiter
open Collector.Lib

/-- `float(x)` of a quotient of `Decimal`s, which has 28 digits. -/
def floatQuotient (x : ℚ) : ℚ := significant 2 53 (significant 10 28 x)

/-- `timedelta(seconds=s)` of a float: the whole seconds are exact, their fraction is a product of
floats, and the sum is rounded to microseconds. -/
def timedelta (s : ℚ) : Time :=
  roundHalfEven (⌊s⌋ * 1000000 + significant 2 53 (Int.fract s * 1000000))

/-- `timedelta(seconds=float(x))`. -/
def secondsWait : Wait := fun x => timedelta (floatQuotient x)

/-- The column types of the rate: `refill_per_second` is `numeric(12, 6)`. -/
structure OriginRateBucket.Scaled (bucket : OriginRateBucket) : Prop extends bucket.Stored where
  rate : Over 1000000 bucket.refillPerSecond

/-- The wait of `x` seconds does not lose a fraction of a microsecond. -/
def KeepsFraction (x : ℚ) : Prop :=
  Int.fract (x * 1000000) = 0 ∨ 1 / 2 < Int.fract (x * 1000000) ∨
    Int.fract (x * 1000000) = 1 / 2 ∧ x * 1000000 < secondsWait x

/-! ## The errors of the floats -/

theorem significant_close {x : ℚ} (positive : 0 ≤ x) :
    |significant 10 28 x - x| ≤ x / (2 * 10 ^ 27) ∧ |significant 2 53 x - x| ≤ x / 2 ^ 53 := by
  have tens := abs_significant_sub 10 28 (by decide) positive
  have twos := abs_significant_sub 2 53 (by decide) positive
  constructor
  · calc _ ≤ _ := tens
      _ = x / (2 * 10 ^ 27) := by norm_num; ring
  · calc _ ≤ _ := twos
      _ = x / 2 ^ 53 := by norm_num; ring

theorem floatQuotient_close {x : ℚ} (positive : 0 ≤ x) :
    |floatQuotient x - x| ≤ x / (8 * 10 ^ 15) := by
  have quotient := abs_le.mp (significant_close positive).1
  have nonneg : 0 ≤ significant 10 28 x := by linarith
  have float := abs_le.mp (significant_close nonneg).2
  unfold floatQuotient
  rw [abs_le]
  constructor <;> linarith

/-- What `timedelta` rounds, in microseconds, is the exact wait up to a part in `4 * 10 ^ 15`. -/
theorem microseconds_close {x : ℚ} (positive : 0 ≤ x) :
    |⌊floatQuotient x⌋ * 1000000 + significant 2 53 (Int.fract (floatQuotient x) * 1000000) -
      x * 1000000| ≤ x * 1000000 / (4 * 10 ^ 15) := by
  have quotient := abs_le.mp (floatQuotient_close positive)
  have nonneg : 0 ≤ floatQuotient x := by linarith
  have split := Int.floor_add_fract (floatQuotient x)
  have fraction := Int.fract_nonneg (floatQuotient x)
  have whole : (0 : ℚ) ≤ ⌊floatQuotient x⌋ := Int.cast_nonneg (Int.floor_nonneg.mpr nonneg)
  have product := abs_le.mp (significant_close
    (x := Int.fract (floatQuotient x) * 1000000) (by positivity)).2
  rw [abs_le]
  constructor <;> linarith

theorem secondsWait_nonneg {x : ℚ} (positive : 0 ≤ x) : 0 ≤ secondsWait x := by
  have close := abs_le.mp (microseconds_close positive)
  apply roundHalfEven_nonneg
  linarith

/-- The wait for at most a token at a rate in whole multiples of `0.000001` falls short of the exact
time only by a fraction of a microsecond that it does not keep. -/
theorem le_secondsWait_iff {deficit rate : ℚ} (positive : 0 < rate) (scaled : Over 1000000 rate)
    (quanta : Quanta deficit) (missing : 0 < deficit) (atMost : deficit ≤ 1) :
    deficit / rate ≤ totalSeconds (secondsWait (deficit / rate)) ↔ KeepsFraction (deficit / rate) := by
  obtain ⟨r, whole⟩ := scaled
  obtain ⟨d, tokens⟩ := quanta
  have someRate : 0 < r := by
    have cast : ((0 : ℤ) : ℚ) < (r : ℚ) := by rw [← whole]; push_cast; positivity
    exact Int.cast_lt.mp cast
  obtain ⟨n, rfl⟩ := Int.eq_ofNat_of_zero_le someRate.le
  have denominator : (0 : ℚ) < n := by exact_mod_cast someRate
  have rateEq : rate = n / 1000000 := by
    rw [eq_div_iff (by norm_num)]
    exact_mod_cast whole
  have fraction : Over n (deficit / rate * 1000000) := by
    refine ⟨d * 100000000, ?_⟩
    rw [tokens, rateEq]
    push_cast
    field_simp
    ring
  have exact' : 0 ≤ deficit / rate := by positivity
  have size : deficit / rate * 1000000 / (4 * 10 ^ 15) < 1 / (2 * n) := by
    rw [rateEq, div_div_eq_mul_div, div_mul_eq_mul_div, div_div, div_lt_div_iff₀ (by positivity) (by positivity)]
    nlinarith
  have close := (microseconds_close exact').trans_lt size
  rw [totalSeconds, le_div_iff₀ (by norm_num)]
  exact le_roundHalfEven_iff fraction (by exact_mod_cast someRate) close

/-! ## The second call -/

/-- Cutting tokens to whole quanta does not cut into a whole token. -/
theorem one_le_quantizeDown_iff {x : ℚ} (positive : 0 ≤ x) : 1 ≤ quantizeDown x ↔ 1 ≤ x :=
  ⟨fun enough => enough.trans (quantizeDown_bounds positive).2.1, quantizeDown_one_le⟩

/-- A refill from `since` finds a token when there is room for one and the missing part was earned. -/
theorem one_le_refilledTokens_iff {bucket : OriginRateBucket} (stored : bucket.Stored) (now : Time) :
    1 ≤ refilledTokens bucket now ↔ 1 ≤ bucket.capacityTokens ∧
      1 ≤ bucket.availableTokens +
        max (totalSeconds (now - bucket.lastRefillAt)) 0 * bucket.refillPerSecond := by
  obtain ⟨positive, low, high⟩ := admissible_bounds stored.admissible
  have elapsed : 0 ≤ max (totalSeconds (now - bucket.lastRefillAt)) 0 := le_max_right _ _
  have earned : 0 ≤ bucket.availableTokens +
      max (totalSeconds (now - bucket.lastRefillAt)) 0 * bucket.refillPerSecond := by positivity
  show 1 ≤ quantizeDown (min _ _) ↔ _
  rw [one_le_quantizeDown_iff (le_min earned (low.trans high)), le_min_iff, and_comm]

/-- A denial for the rate stores the refill and names the time when the deficit is earned. -/
theorem denied_for_rate {wait : Wait} {db next : Db} {origin owner : String} {lease : Int}
    {job : Option Uuid} {draw : Uuid} {now : Time} {decision : PermitDecision} {bucket : OriginRateBucket}
    (known : db.buckets.find? origin = some bucket)
    (answered : acquirePermit wait db origin owner lease job draw now = .ok (decision, next))
    (rate : decision.reason = some .rate) :
    bucket.blockedAt now = false ∧ refilledTokens bucket now < 1 ∧
      decision.retryAfter = some (now + wait ((1 - refilledTokens bucket now) / bucket.refillPerSecond)) ∧
      next.buckets.find? origin = some (bucket.refill now) := by
  unfold acquirePermit at answered
  obtain ⟨_, _, answered⟩ := Except.bind_eq_ok.mp answered
  obtain ⟨here, found, answered⟩ := Except.bind_eq_ok.mp answered
  rw [require_eq_ok, known, Option.some.injEq] at found
  subst found
  split at answered
  · cases answered
    cases rate
  rename_i free
  rw [Bool.not_eq_true] at free
  dsimp only at answered
  split at answered
  · rename_i short
    obtain ⟨after, written, answered⟩ := Except.bind_eq_ok.mp answered
    cases answered
    refine ⟨free, short, rfl, ?_⟩
    rw [writeBucket_eq written]
    exact (find?_putBucket (bucket.refill now) known rfl origin).trans (if_pos rfl)
  · split at answered
    · obtain ⟨_, _, answered⟩ := Except.bind_eq_ok.mp answered
      cases answered
      cases rate
    · obtain ⟨_, _, answered⟩ := Except.bind_eq_ok.mp answered
      obtain ⟨_, _, answered⟩ := Except.bind_eq_ok.mp answered
      cases answered
      cases rate

/-- The bucket is not blocked later than it was free. -/
theorem blockedAt_mono {bucket : OriginRateBucket} {now later : Time} (free : bucket.blockedAt now = false)
    (le : now ≤ later) : (bucket.refill now).blockedAt later = false := by
  unfold OriginRateBucket.blockedAt OriginRateBucket.refill at *
  dsimp only
  cases blocked : bucket.blockedUntil with
  | none => rfl
  | some time =>
    rw [blocked] at free
    simp only [decide_eq_false_iff_not, not_lt] at free ⊢
    exact free.trans le

/-- For every admitted bucket and every denial for the rate with its `retry_after`: a single acquire
at that time is not denied for the rate exactly when the bucket has room for a token and the wait for
the deficit keeps its fraction of a microsecond. -/
theorem retry_after_honest_iff {db next : Db} {origin owner again : String} {lease leaseAgain : Int}
    {job jobAgain : Option Uuid} {draw drawAgain : Uuid} {now later : Time} {decision : PermitDecision}
    {bucket : OriginRateBucket} (known : db.buckets.find? origin = some bucket) (scaled : bucket.Scaled)
    (answered : acquirePermit secondsWait db origin owner lease job draw now = .ok (decision, next))
    (rate : decision.reason = some .rate) (retry : decision.retryAfter = some later)
    (valid : 1 ≤ leaseAgain) :
    deniedForRate secondsWait next (.acquirePermit origin again leaseAgain jobAgain drawAgain later) = false ↔
      1 ≤ bucket.capacityTokens ∧
        KeepsFraction ((1 - refilledTokens bucket now) / bucket.refillPerSecond) := by
  obtain ⟨free, short, promised, found⟩ := denied_for_rate known answered rate
  obtain ⟨positive, _, _⟩ := admissible_bounds scaled.admissible
  obtain ⟨low, _, quanta⟩ := refilledTokens_between scaled.toStored now
  set deficit := 1 - refilledTokens bucket now with missing
  have some' : 0 < deficit := by linarith
  have exact' : 0 ≤ deficit / bucket.refillPerSecond := by positivity
  have deficitQuanta : Quanta deficit := by
    obtain ⟨n, whole⟩ := quanta
    refine ⟨10000 - n, ?_⟩
    rw [missing, whole]
    push_cast
    ring
  have wait := secondsWait_nonneg exact'
  rw [retry, Option.some.injEq] at promised
  have open' := blockedAt_mono free (promised ▸ le_add_of_nonneg_right wait : now ≤ later)
  have elapsed : later - now = secondsWait (deficit / bucket.refillPerSecond) :=
    sub_eq_of_eq_add' promised
  rw [← Bool.not_eq_true, deniedForRate_iff found (scaled.toStored.refill now) valid, open']
  simp only [true_and, not_lt]
  rw [one_le_refilledTokens_iff (scaled.toStored.refill now),
    ← le_secondsWait_iff positive scaled.rate deficitQuanta some' (by linarith)]
  show _ ∧ 1 ≤ refilledTokens bucket now + max (totalSeconds (later - now)) 0 * bucket.refillPerSecond ↔ _
  have span : 0 ≤ totalSeconds (later - now) := by
    rw [elapsed, totalSeconds]
    have cast : (0 : ℚ) ≤ secondsWait (deficit / bucket.refillPerSecond) := Int.cast_nonneg wait
    positivity
  rw [max_eq_left span, elapsed, div_le_iff₀ positive, missing, sub_le_iff_le_add']
  rfl

namespace Sample

/-- The only token of a bucket that earns `rate` a second is spent at time zero. -/
def spent (rate : ℚ) : Db :=
  ((machine secondsWait).replay .empty [.ensureBucket "o" 1 rate 5 0, acquireAt 0]).2

/-- The next acquire at time zero. -/
def second (rate : ℚ) : Except LimiterError (PermitDecision × Db) :=
  acquirePermit secondsWait (spent rate) "o" "worker" 60 none 7 0

def refusal (rate : ℚ) : PermitDecision := (second rate).toOption.elim (denied .blocked none 0 0) Prod.fst

def refused (rate : ℚ) : Db := (second rate).toOption.elim (spent rate) Prod.snd

theorem second_eq {rate : ℚ} (answered : (second rate).isOk = true) :
    second rate = .ok (refusal rate, refused rate) := by
  unfold refusal refused
  cases made : second rate with
  | error e => simp [made, Except.isOk, Except.toBool] at answered
  | ok pair => rfl

def spentBucket : OriginRateBucket := { bucket with availableTokens := 0 }

theorem spentBucket_scaled : spentBucket.Scaled where
  admissible := by decide +kernel
  quanta := ⟨0, by norm_num [spentBucket]⟩
  rate := ⟨1000000, by norm_num [spentBucket, bucket]⟩

end Sample

/-- At a token a second the missing token is there after a second. -/
theorem retry_after_honest_second :
    deniedForRate secondsWait (Sample.refused 1) (Sample.acquireAt 1000000) = false :=
  (retry_after_honest_iff (by decide +kernel) Sample.spentBucket_scaled
    (Sample.second_eq (by decide +kernel)) (by decide +kernel) (by decide +kernel) (by decide)).mpr
    ⟨by decide +kernel, .inl (by decide +kernel)⟩

/-- At three tokens a second the token is due after a third of a second, which `retry_after` cuts to
`0.333333` seconds: `0.9999` tokens then, and the acquire at that time is denied again. -/
theorem retry_after_dishonest :
    (Sample.second 3).isOk = true ∧ (Sample.refusal 3).reason = some .rate ∧
      (Sample.refusal 3).retryAfter = some 333333 ∧
      deniedForRate secondsWait (Sample.refused 3) (Sample.acquireAt 333333) = true := by
  decide +kernel

end Collector.Persistence.Limiter
