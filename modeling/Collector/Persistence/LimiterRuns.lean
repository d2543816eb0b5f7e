import Collector.Persistence.LimiterEffect
import Collector.Lib.TokenBucket
import Mathlib.Tactic.Positivity

/-!
The limiter over whole runs. As long as the clock does not go back, an acquire that gets past the
block check refills from a moment that is already behind it, and a block leaves an empty bucket
that earns nothing before the block ends. So no call raises the reserve of
`Collector.Lib.TokenBucket`, which bounds the permits in every window.
-/

namespace Collector.Persistence.Limiter
open Collector.Lib

/-! ## Decimals -/

theorem totalSeconds_sub (a b : Time) : totalSeconds (a - b) = totalSeconds a - totalSeconds b := by
  unfold totalSeconds
  push_cast
  ring

theorem totalSeconds_le {a b : Time} : totalSeconds a ≤ totalSeconds b ↔ a ≤ b := by
  unfold totalSeconds
  rw [div_le_div_iff_of_pos_right (by norm_num)]
  exact Int.cast_le

/-- A whole number of token quanta. -/
def Quanta (x : ℚ) : Prop := ∃ n : ℤ, x = n / 10000

theorem numeric_mono (scale : Nat) {x y : ℚ} (below : x ≤ y) : numeric scale x ≤ numeric scale y := by
  unfold numeric
  have scaled : x * 10 ^ scale ≤ y * 10 ^ scale := mul_le_mul_of_nonneg_right below (by positivity)
  apply div_le_div_of_nonneg_right _ (by positivity)
  rw [round_eq, round_eq]
  exact_mod_cast Int.floor_mono (add_le_add_left scaled _)

theorem numeric_of_quanta {x : ℚ} (quanta : Quanta x) : numeric 4 x = x := by
  obtain ⟨n, rfl⟩ := quanta
  have whole : (n : ℚ) / 10000 * 10 ^ 4 = n := by norm_num
  rw [numeric, whole, round_intCast]
  norm_num

theorem quanta_numeric (x : ℚ) : Quanta (numeric 4 x) := ⟨round (x * 10 ^ 4), by norm_num [numeric]⟩

theorem quantizeDown_bounds {x : ℚ} (positive : 0 ≤ x) :
    0 ≤ quantizeDown x ∧ quantizeDown x ≤ x ∧ Quanta (quantizeDown x) := by
  unfold quantizeDown
  rw [if_pos positive]
  have scaled : 0 ≤ x * 10000 := by positivity
  refine ⟨?_, ?_, ⌊x * 10000⌋, rfl⟩
  · have floor : 0 ≤ ⌊x * 10000⌋ := Int.floor_nonneg.mpr scaled
    positivity
  · rw [div_le_iff₀ (by norm_num)]
    exact Int.floor_le _

/-! ## One step -/

/-- What holds of a bucket whose calls so far were made by the time `now`. -/
structure Sound (C R : ℚ) (K : Int) (now : Time) (bucket : OriginRateBucket) : Prop where
  capacity : bucket.capacityTokens = C
  rate : bucket.refillPerSecond = R
  slots : bucket.maxConcurrency = K
  positive : 0 < R
  low : 0 ≤ bucket.availableTokens
  high : bucket.availableTokens ≤ C
  quanta : Quanta bucket.availableTokens
  /-- The refill starts at a call or at the end of the block. -/
  past : bucket.lastRefillAt ≤ now ∨ ∃ blocked, bucket.blockedUntil = some blocked ∧
    bucket.lastRefillAt ≤ blocked
  /-- A block that is not behind us has emptied the bucket and put the refill off to its end. -/
  idle : ∀ blocked, bucket.blockedUntil = some blocked → now ≤ blocked →
    bucket.availableTokens = 0 ∧ blocked ≤ bucket.lastRefillAt

variable {C R : ℚ} {K : Int}

theorem Sound.mono {now later : Time} {bucket : OriginRateBucket} (sound : Sound C R K now bucket)
    (passed : now ≤ later) : Sound C R K later bucket where
  capacity := sound.capacity
  rate := sound.rate
  slots := sound.slots
  positive := sound.positive
  low := sound.low
  high := sound.high
  quanta := sound.quanta
  past := sound.past.imp_left fun before => before.trans passed
  idle blocked here ahead := sound.idle blocked here (passed.trans ahead)

theorem le_of_blockedAt {bucket : OriginRateBucket} {now blocked : Time}
    (free : bucket.blockedAt now = false) (here : bucket.blockedUntil = some blocked) :
    blocked ≤ now := by
  simpa [OriginRateBucket.blockedAt, here] using free

/-- An acquire that is not turned away finds the last refill behind it. -/
theorem Sound.refilled_before {now : Time} {bucket : OriginRateBucket}
    (sound : Sound C R K now bucket) (free : bucket.blockedAt now = false) :
    bucket.lastRefillAt ≤ now := by
  rcases sound.past with before | ⟨blocked, here, before⟩
  · exact before
  · exact before.trans (le_of_blockedAt free here)

def level (bucket : OriginRateBucket) : Level ℚ :=
  ⟨bucket.availableTokens, totalSeconds bucket.lastRefillAt⟩

/-- A refill keeps the tokens within bounds and credits no more than was earned. -/
theorem refilledTokens_bounds {bucket : OriginRateBucket} {now : Time}
    (low : 0 ≤ bucket.availableTokens) (rate : 0 ≤ bucket.refillPerSecond)
    (capacity : 0 ≤ bucket.capacityTokens) (before : bucket.lastRefillAt ≤ now) :
    0 ≤ refilledTokens bucket now ∧ refilledTokens bucket now ≤ bucket.capacityTokens ∧
      refilledTokens bucket now ≤ bucket.availableTokens +
        bucket.refillPerSecond * (totalSeconds now - totalSeconds bucket.lastRefillAt) ∧
      Quanta (refilledTokens bucket now) := by
  have elapsed : 0 ≤ totalSeconds now - totalSeconds bucket.lastRefillAt :=
    sub_nonneg.mpr (totalSeconds_le.mpr before)
  have earned : 0 ≤ bucket.availableTokens +
      (totalSeconds now - totalSeconds bucket.lastRefillAt) * bucket.refillPerSecond := by positivity
  simp only [refilledTokens, totalSeconds_sub, max_eq_left elapsed]
  obtain ⟨nonneg, below, quanta⟩ := quantizeDown_bounds (le_min earned capacity)
  refine ⟨nonneg, below.trans (min_le_right _ _), ?_, quanta⟩
  rw [mul_comm bucket.refillPerSecond]
  exact below.trans (min_le_left _ _)

/-- A refill earns what is spent out of it and what it leaves. -/
theorem reserve_spent {bucket after : OriginRateBucket} {now : Time} {n : Nat}
    (low : 0 ≤ bucket.availableTokens) (rate : 0 ≤ bucket.refillPerSecond)
    (capacity : 0 ≤ bucket.capacityTokens) (before : bucket.lastRefillAt ≤ now)
    (since : after.lastRefillAt = now)
    (spent : after.availableTokens + n = (bucket.refill now).availableTokens) {t : ℚ}
    (within : totalSeconds now ≤ t) :
    n + (level after).reserve bucket.refillPerSecond t ≤
      (level bucket).reserve bucket.refillPerSecond t := by
  obtain ⟨-, -, earned, -⟩ := refilledTokens_bounds low rate capacity before
  apply reserve_refill (totalSeconds_le.mpr before) within (congrArg totalSeconds since)
  show after.availableTokens + n ≤ _
  rw [spent]
  exact earned

theorem Sound.refill {now : Time} {bucket : OriginRateBucket} (sound : Sound C R K now bucket)
    (free : bucket.blockedAt now = false) : Sound C R K now (bucket.refill now) := by
  have before := sound.refilled_before free
  have capacity : 0 ≤ C := sound.low.trans sound.high
  obtain ⟨low, high, earned, quanta⟩ := refilledTokens_bounds sound.low
    (sound.rate ▸ sound.positive.le) (sound.capacity ▸ capacity) before
  refine ⟨sound.capacity, sound.rate, sound.slots, sound.positive, low, sound.capacity ▸ high, quanta,
    .inl le_rfl, fun blocked here ahead => ⟨?_, le_of_blockedAt free here⟩⟩
  -- the block ends at this very moment: nothing was earned yet
  obtain ⟨empty, since⟩ := sound.idle blocked here ahead
  have same : bucket.lastRefillAt = now := le_antisymm before (ahead.trans since)
  rw [empty, same, sub_self, mul_zero, add_zero] at earned
  exact le_antisymm earned low

theorem Sound.spend {now : Time} {bucket : OriginRateBucket} (sound : Sound C R K now bucket)
    (enough : 1 ≤ bucket.availableTokens) : Sound C R K now bucket.spend := by
  refine ⟨sound.capacity, sound.rate, sound.slots, sound.positive, sub_nonneg.mpr enough, ?_, ?_,
    sound.past, fun blocked here ahead => ?_⟩
  · exact (sub_le_self _ zero_le_one).trans sound.high
  · obtain ⟨n, same⟩ := sound.quanta
    refine ⟨n - 10000, ?_⟩
    show bucket.availableTokens - 1 = _
    rw [same]
    push_cast
    ring
  · rw [(sound.idle blocked here ahead).1] at enough
    exact absurd enough (by norm_num)

/-- A block that extends the one before it ends after the moment the refill starts from. -/
theorem Sound.block {now untilTime : Time} {bucket : OriginRateBucket} (reason : String)
    (sound : Sound C R K now bucket) (ahead : now ≤ untilTime)
    (longer : bucket.extendedBy untilTime = true) :
    Sound C R K now (bucket.block untilTime reason now) ∧ bucket.lastRefillAt ≤ untilTime := by
  constructor
  · refine ⟨sound.capacity, sound.rate, sound.slots, sound.positive, le_rfl,
      sound.low.trans sound.high, ⟨0, by norm_num [OriginRateBucket.block]⟩,
      .inr ⟨untilTime, rfl, le_rfl⟩, fun blocked here _ => ⟨rfl, ?_⟩⟩
    cases here
    exact le_rfl
  · rcases sound.past with before | ⟨blocked, here, before⟩
    · exact before.trans ahead
    · have shorter : blocked < untilTime := by
        simpa [OriginRateBucket.extendedBy, here] using longer
      exact before.trans shorter.le

theorem admissible_bounds {bucket : OriginRateBucket} (admissible : bucket.admissible = true) :
    0 < bucket.refillPerSecond ∧ 0 ≤ bucket.availableTokens ∧
      bucket.availableTokens ≤ bucket.capacityTokens := by
  simp only [OriginRateBucket.admissible, Bool.and_eq_true, decide_eq_true_eq] at admissible
  exact ⟨admissible.1.1.1.1.1.1.1.1.2, admissible.1.1.1.1.1.1.2⟩

/-- Naming the same configuration again changes nothing that counts. -/
theorem Sound.configure {now : Time} {old bucket : OriginRateBucket} {capacity : ℚ}
    (sound : Sound C R K now old) (admissible : bucket.admissible = true)
    (configured : bucket.capacityTokens = C ∧ bucket.refillPerSecond = R ∧ bucket.maxConcurrency = K)
    (capped : bucket.availableTokens = numeric 4 (min old.availableTokens capacity))
    (since : bucket.lastRefillAt = old.lastRefillAt) (still : bucket.blockedUntil = old.blockedUntil) :
    Sound C R K now bucket ∧ bucket.availableTokens ≤ old.availableTokens := by
  have bounds := (admissible_bounds admissible).2
  have fewer : bucket.availableTokens ≤ old.availableTokens := by
    rw [capped]
    calc numeric 4 (min old.availableTokens capacity)
        ≤ numeric 4 old.availableTokens := numeric_mono 4 (min_le_left _ _)
      _ = old.availableTokens := numeric_of_quanta sound.quanta
  refine ⟨⟨configured.1, configured.2.1, configured.2.2, sound.positive, bounds.1,
    configured.1 ▸ bounds.2, capped ▸ quanta_numeric _, ?_, ?_⟩, fewer⟩
  · rw [since, still]
    exact sound.past
  · rw [since, still]
    intro blocked here ahead
    obtain ⟨empty, later⟩ := sound.idle blocked here ahead
    exact ⟨le_antisymm (empty ▸ fewer) bounds.1, later⟩

abbrev Event := Entry Call Answer LimiterError

/-- The call names the configuration of the origin, and a block of it does not end before it
starts. -/
def Call.regular (origin : String) (C R : ℚ) (K : Int) : Call → Prop
  | .ensureBucket here capacity refill maxConcurrency _ => here = origin →
      numeric 4 capacity = C ∧ numeric 6 refill = R ∧ maxConcurrency = K
  | .blockOrigin here untilTime _ _ _ now => here = origin → now ≤ untilTime
  | _ => True

/-- The permits that one answer hands out. -/
def permits (origin : String) (call : Call) (a : Answer) : Nat :=
  if granted origin call a then 1 else 0

theorem Sound.paid {now : Time} {bucket after : OriginRateBucket} {n : Nat}
    (sound : Sound C R K now bucket) (free : bucket.blockedAt now = false)
    (since : after.lastRefillAt = now)
    (spent : after.availableTokens + n = (bucket.refill now).availableTokens) {t : ℚ}
    (within : totalSeconds now ≤ t) :
    n + (level after).reserve R t ≤ (level bucket).reserve R t := by
  have earned := reserve_spent sound.low (sound.rate ▸ sound.positive.le)
    (sound.capacity ▸ sound.low.trans sound.high) (sound.refilled_before free) since spent within
  rwa [sound.rate] at earned

/-- A bucket that is there before a call is there after it, still sound, and a permit is paid for
out of its reserve. -/
theorem Effect.paid {origin : String} {call : Call} {a : Answer} {db next : Db}
    {bucket : OriginRateBucket} (effect : Effect origin call a db next)
    (regular : call.regular origin C R K) (known : db.buckets.find? origin = some bucket)
    (sound : Sound C R K call.now bucket) :
    ∃ after, next.buckets.find? origin = some after ∧ Sound C R K call.now after ∧
      ∀ t, totalSeconds call.now ≤ t →
        permits origin call a + (level after).reserve R t ≤ (level bucket).reserve R t := by
  unfold permits
  cases effect with
  | untouched same silent _ =>
    refine ⟨bucket, same.trans known, sound, fun t _ => ?_⟩
    simp [silent]
  | created _ _ _ _ _ _ absent =>
    rw [absent] at known
    cases known
  | configured old after capacity refill slots now called found placed admissible configured capped
      since still =>
    rw [found] at known
    cases known
    cases called
    obtain ⟨named, rate, concurrency⟩ := regular rfl
    rw [named, rate, concurrency] at configured
    obtain ⟨kept, fewer⟩ := sound.configure admissible configured capped since still
    refine ⟨after, placed, kept, fun t _ => ?_⟩
    simp only [granted, Bool.false_eq_true, if_false, Nat.cast_zero, zero_add]
    exact reserve_mono sound.positive.le fewer (by rw [level, level, since])
  | refilled old now called found free placed silent _ =>
    rw [found] at known
    cases known
    cases called
    refine ⟨_, placed, sound.refill free, fun t within => ?_⟩
    rw [silent]
    exact sound.paid free rfl (add_zero _) within
  | spent old now called found free enough slot placed live acquired _ =>
    rw [found] at known
    cases known
    cases called
    refine ⟨_, placed, (sound.refill free).spend enough, fun t within => ?_⟩
    rw [acquired]
    exact sound.paid free rfl (sub_add_cancel _ _) within
  | blocked old untilTime actor reason requestId now called found longer placed =>
    rw [found] at known
    cases known
    cases called
    obtain ⟨kept, later⟩ := sound.block reason (regular rfl) longer
    refine ⟨_, placed, kept, fun t _ => ?_⟩
    simp only [granted, Bool.false_eq_true, if_false, Nat.cast_zero, zero_add]
    exact reserve_mono sound.positive.le sound.low (totalSeconds_le.mpr later)
  | kept old untilTime actor reason requestId now called found shorter same =>
    cases same
    cases called
    refine ⟨bucket, known, sound, fun t _ => ?_⟩
    simp [granted]

/-- A bucket that a call creates is full and starts to earn at once. -/
theorem Effect.created_sound {origin : String} {call : Call} {a : Answer} {db next : Db}
    {bucket : OriginRateBucket} (effect : Effect origin call a db next)
    (regular : call.regular origin C R K) (absent : db.buckets.find? origin = none)
    (found : next.buckets.find? origin = some bucket) : Sound C R K call.now bucket := by
  cases effect with
  | untouched same =>
    rw [same, absent] at found
    cases found
  | configured _ _ _ _ _ _ _ known | refilled _ _ _ known | spent _ _ _ known
  | blocked _ _ _ _ _ _ _ known | kept _ _ _ _ _ _ _ known =>
    rw [absent] at known
    cases known
  | created fresh capacity refill slots now called _ placed admissible configured full since free =>
    rw [placed] at found
    cases found
    cases called
    obtain ⟨named, rate, concurrency⟩ := regular rfl
    rw [named, rate, concurrency] at configured
    obtain ⟨positive, low, high⟩ := admissible_bounds admissible
    refine ⟨configured.1, configured.2.1, configured.2.2, configured.2.1 ▸ positive, low,
      configured.1 ▸ high, full ▸ quanta_numeric capacity, .inl since.le, ?_⟩
    intro blocked here
    rw [free] at here
    cases here

end Collector.Persistence.Limiter
