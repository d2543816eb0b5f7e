import Collector.Persistence.LimiterClock

/-!
Polling a bucket. Every acquire that gets past the block cuts the refilled tokens to whole quanta
and moves `last_refill_at` to its `now`, also when it is denied, so the fraction of a quantum that
was earned since the last call is gone. A poll therefore delays the next token exactly when the
quanta of the single gaps do not reach the missing tokens and those of the whole span do.
-/

namespace Collector.Persistence.Limiter
open Collector.Lib

variable {wait : Wait}

/-- The whole quanta earned from `since` to `now`. -/
def earnedQuanta (rate : ℚ) (since now : Time) : ℤ :=
  ⌊max (totalSeconds (now - since)) 0 * rate * 10000⌋

/-- The quanta that refills at the given times add one after the other, newest first; the last of
the times is the `last_refill_at` they start from. -/
def quantaOver (rate : ℚ) : List Time → ℤ
  | now :: since :: older => earnedQuanta rate since now + quantaOver rate (since :: older)
  | _ => 0

theorem earnedQuanta_nonneg {rate : ℚ} (positive : 0 < rate) (since now : Time) :
    0 ≤ earnedQuanta rate since now := by
  apply Int.floor_nonneg.mpr
  have elapsed : 0 ≤ max (totalSeconds (now - since)) 0 := le_max_right _ _
  positivity

/-! ## One refill -/

theorem quantizeDown_one_le {x : ℚ} (enough : 1 ≤ x) : 1 ≤ quantizeDown x := by
  have positive : 0 ≤ x := zero_le_one.trans enough
  rw [quantizeDown, if_pos positive, le_div_iff₀ (by norm_num)]
  have floor : (10000 : ℤ) ≤ ⌊x * 10000⌋ := Int.le_floor.mpr (by push_cast; linarith)
  have cast : ((10000 : ℤ) : ℚ) ≤ ⌊x * 10000⌋ := Int.cast_le.mpr floor
  push_cast at cast
  linarith

/-- The tokens agree with `start` and `earned` more quanta, or both are past the first token. -/
def Tracks (start tokens : ℚ) (earned : ℤ) : Prop :=
  tokens = start + earned / 10000 ∨ 1 ≤ tokens ∧ 1 ≤ start + earned / 10000

theorem Tracks.one_le_iff {start tokens : ℚ} {earned : ℤ} (tracks : Tracks start tokens earned) :
    1 ≤ tokens ↔ 1 ≤ start + (earned : ℚ) / 10000 := by
  rcases tracks with same | ⟨enough, earned⟩
  · rw [same]
  · exact iff_of_true enough earned

/-- A refill adds the quanta earned since the last one, up to the capacity. -/
theorem refilledTokens_tracks {bucket : OriginRateBucket} (positive : 0 < bucket.refillPerSecond)
    (low : 0 ≤ bucket.availableTokens) (quanta : Quanta bucket.availableTokens)
    (capacity : 1 ≤ bucket.capacityTokens) (now : Time) :
    Tracks bucket.availableTokens (refilledTokens bucket now)
      (earnedQuanta bucket.refillPerSecond bucket.lastRefillAt now) := by
  obtain ⟨n, whole⟩ := quanta
  set earned := max (totalSeconds (now - bucket.lastRefillAt)) 0 * bucket.refillPerSecond with span
  have grown : 0 ≤ earned := mul_nonneg (le_max_right _ _) positive.le
  have cut : quantizeDown (bucket.availableTokens + earned) =
      bucket.availableTokens + (⌊earned * 10000⌋ : ℚ) / 10000 := by
    have scaled : (bucket.availableTokens + earned) * 10000 = n + earned * 10000 := by
      rw [whole]
      ring
    rw [quantizeDown, if_pos (add_nonneg low grown), scaled, Int.floor_intCast_add]
    rw [whole]
    push_cast
    ring
  show Tracks _ (quantizeDown (min (bucket.availableTokens + earned) bucket.capacityTokens)) ⌊earned * 10000⌋
  rcases le_total (bucket.availableTokens + earned) bucket.capacityTokens with fits | full
  · left
    rw [min_eq_left fits, cut]
  · right
    rw [min_eq_right full, ← cut]
    exact ⟨quantizeDown_one_le capacity, quantizeDown_one_le (capacity.trans full)⟩

theorem Tracks.refill {start : ℚ} {earned : ℤ} {bucket : OriginRateBucket}
    (tracks : Tracks start bucket.availableTokens earned) (positive : 0 < bucket.refillPerSecond)
    (low : 0 ≤ bucket.availableTokens) (quanta : Quanta bucket.availableTokens)
    (capacity : 1 ≤ bucket.capacityTokens) (now : Time) :
    Tracks start (refilledTokens bucket now)
      (earnedQuanta bucket.refillPerSecond bucket.lastRefillAt now + earned) := by
  have step := refilledTokens_tracks positive low quanta capacity now
  have more : (0 : ℚ) ≤ earnedQuanta bucket.refillPerSecond bucket.lastRefillAt now :=
    Int.cast_nonneg (earnedQuanta_nonneg positive _ _)
  unfold Tracks
  push_cast
  rcases tracks with same | ⟨enough, past⟩
  · rw [same] at step
    rcases step with next | ⟨next, past⟩
    · left
      rw [next]
      ring
    · right
      exact ⟨next, by linarith⟩
  · right
    constructor
    · rcases step with next | ⟨next, -⟩
      · rw [next]
        linarith
      · exact next
    · linarith

/-! ## One call -/

/-- The row is one the table can hold. -/
structure OriginRateBucket.Stored (bucket : OriginRateBucket) : Prop where
  admissible : bucket.admissible = true
  /-- `available_tokens` is `numeric(12, 4)`. -/
  quanta : Quanta bucket.availableTokens

theorem refilledTokens_between {bucket : OriginRateBucket} (stored : bucket.Stored) (now : Time) :
    0 ≤ refilledTokens bucket now ∧ refilledTokens bucket now ≤ bucket.capacityTokens ∧
      Quanta (refilledTokens bucket now) := by
  obtain ⟨positive, low, high⟩ := admissible_bounds stored.admissible
  have elapsed : 0 ≤ max (totalSeconds (now - bucket.lastRefillAt)) 0 := le_max_right _ _
  have earned : 0 ≤ bucket.availableTokens +
      max (totalSeconds (now - bucket.lastRefillAt)) 0 * bucket.refillPerSecond := by positivity
  obtain ⟨nonneg, below, quanta⟩ := quantizeDown_bounds (le_min earned (low.trans high))
  exact ⟨nonneg, below.trans (min_le_right _ _), quanta⟩

theorem OriginRateBucket.Stored.refill {bucket : OriginRateBucket} (stored : bucket.Stored) (now : Time) :
    (bucket.refill now).Stored := by
  obtain ⟨low, high, quanta⟩ := refilledTokens_between stored now
  constructor
  · have admissible := stored.admissible
    simp only [OriginRateBucket.admissible, Bool.and_eq_true, decide_eq_true_eq] at admissible ⊢
    have between : 0 ≤ (bucket.refill now).availableTokens ∧
        (bucket.refill now).availableTokens ≤ (bucket.refill now).capacityTokens := ⟨low, high⟩
    simp only [between, and_self, and_true]
    exact ⟨⟨⟨⟨⟨⟨admissible.1.1.1.1.1.1.1, admissible.1.1.1.1.1.2⟩, admissible.1.1.1.1.2⟩,
      admissible.1.1.1.2⟩, admissible.1.1.2⟩, admissible.1.2⟩, admissible.2⟩
  · exact quanta

/-- The call is denied because no token is left. -/
def deniedForRate (wait : Wait) (db : Db) (call : Call) : Bool :=
  match (machine wait).exec call db with
  | .ok (.decision decision, _) => decision.reason == some .rate
  | _ => false

theorem deniedForRate_eq_true {db : Db} {origin owner : String} {lease : Int} {job : Option Uuid}
    {draw : Uuid} {now : Time} :
    deniedForRate wait db (.acquirePermit origin owner lease job draw now) = true ↔
      ∃ decision next, acquirePermit wait db origin owner lease job draw now = .ok (decision, next) ∧
        decision.reason = some .rate := by
  unfold deniedForRate machine answer
  cases made : acquirePermit wait db origin owner lease job draw now with
  | error e => simp [made, Except.map]
  | ok pair =>
    obtain ⟨decision, next⟩ := pair
    simp [made, Except.map]

/-- A valid call is denied for the rate when it gets past the block and finds less than a token. -/
theorem deniedForRate_iff {db : Db} {origin owner : String} {lease : Int} {job : Option Uuid}
    {draw : Uuid} {now : Time} {bucket : OriginRateBucket}
    (known : db.buckets.find? origin = some bucket) (stored : bucket.Stored) (valid : 1 ≤ lease) :
    deniedForRate wait db (.acquirePermit origin owner lease job draw now) = true ↔
      bucket.blockedAt now = false ∧ refilledTokens bucket now < 1 := by
  rw [deniedForRate_eq_true]
  constructor
  · rintro ⟨decision, next, answered, rate⟩
    unfold acquirePermit at answered
    obtain ⟨_, _, answered⟩ := Except.bind_eq_ok.mp answered
    obtain ⟨here, found, answered⟩ := Except.bind_eq_ok.mp answered
    rw [require_eq_ok, known, Option.some.injEq] at found
    subst found
    split at answered
    · cases answered
      cases rate
    · rename_i free
      rw [Bool.not_eq_true] at free
      dsimp only at answered
      split at answered
      · rename_i short
        exact ⟨free, short⟩
      · split at answered
        · obtain ⟨_, _, answered⟩ := Except.bind_eq_ok.mp answered
          cases answered
          cases rate
        · obtain ⟨_, _, answered⟩ := Except.bind_eq_ok.mp answered
          obtain ⟨_, _, answered⟩ := Except.bind_eq_ok.mp answered
          cases answered
          cases rate
  · rintro ⟨free, short⟩
    have found : require (db.buckets.find? origin) (LimiterError.bucketNotFound origin) = .ok bucket :=
      require_eq_ok.mpr known
    have admissible := (stored.refill now).admissible
    have written : db.writeBucket (bucket.refill now) =
        .ok { db with buckets := db.buckets.put (bucket.refill now) } := by
      rw [Db.writeBucket, admissible]
      rfl
    have few : (bucket.refill now).availableTokens < 1 := short
    unfold acquirePermit
    rw [ensure_eq_ok (u := ()) |>.mpr (decide_eq_true valid), found]
    simp only [bind, Except.bind, free, few, written, Bool.false_eq_true, if_false, if_true]
    exact ⟨_, _, rfl, rfl⟩

/-! ## Runs of polls -/

/-- The entry is an acquire on the origin that was denied. -/
def deniedOn (origin : String) : Event → Bool
  | ⟨.acquirePermit here _ _ _ _ _, .ok (.decision decision)⟩ =>
    decide (here = origin) && !decision.granted
  | _ => false

theorem denied_step {db next : Db} {call : Call} {a : Answer} {origin : String}
    {bucket : OriginRateBucket} (answered : (machine wait).exec call db = .ok (a, next))
    (refused : deniedOn origin ⟨call, .ok a⟩ = true)
    (known : db.buckets.find? origin = some bucket) :
    (bucket.blockedAt call.now = true ∧ next.buckets.find? origin = some bucket) ∨
      (bucket.blockedAt call.now = false ∧
        next.buckets.find? origin = some (bucket.refill call.now)) := by
  cases call with
  | ensureBucket | releasePermit | expirePermits | blockOrigin => cases refused
  | acquirePermit here owner lease job draw now =>
    obtain ⟨decision, done, rfl⟩ := answer_eq_ok.mp answered
    simp only [deniedOn, Bool.and_eq_true, decide_eq_true_eq, Bool.not_eq_true'] at refused
    obtain ⟨rfl, denied⟩ := refused
    obtain ⟨found, there, outcome⟩ := acquirePermit_cases done
    rw [known, Option.some.injEq] at there
    subst there
    rcases outcome with ⟨blocked, _, rfl⟩ | ⟨free, _, rfl⟩ | ⟨_, granted, _⟩
    · exact .inl ⟨blocked, known⟩
    · exact .inr ⟨free, (find?_putBucket (bucket.refill now) known rfl here).trans (if_pos rfl)⟩
    · rw [denied] at granted
      cases granted

/-- What denied polls leave of a bucket with room for a token. -/
structure Polled (start : OriginRateBucket) (clocks : List Time) (bucket : OriginRateBucket) : Prop where
  stored : bucket.Stored
  capacity : bucket.capacityTokens = start.capacityTokens
  rate : bucket.refillPerSecond = start.refillPerSecond
  blocked : bucket.blockedUntil = start.blockedUntil
  since : clocks.head? = some bucket.lastRefillAt
  tracks : 1 ≤ start.capacityTokens →
    Tracks start.availableTokens bucket.availableTokens (quantaOver start.refillPerSecond clocks)

theorem Polled.refill {start bucket : OriginRateBucket} {clocks : List Time}
    (polled : Polled start clocks bucket) (now : Time) :
    Polled start (now :: clocks) (bucket.refill now) := by
  refine ⟨polled.stored.refill now, polled.capacity, polled.rate, polled.blocked, rfl, fun room => ?_⟩
  obtain ⟨older, split⟩ := List.head?_eq_some_iff.mp polled.since
  obtain ⟨positive, low, _⟩ := admissible_bounds polled.stored.admissible
  have step := (polled.tracks room).refill positive low polled.stored.quanta (polled.capacity ▸ room) now
  rw [split] at step ⊢
  rw [quantaOver, ← polled.rate]
  rw [← polled.rate] at step
  exact step

theorem run_polled {db₀ db : Db} {origin : String} {start : OriginRateBucket} {history : List Event}
    (known : db₀.buckets.find? origin = some start) (stored : start.Stored)
    (run : (machine wait).Run db₀ history db) (denied : ∀ e ∈ history, deniedOn origin e = true) :
    ∃ bucket, db.buckets.find? origin = some bucket ∧
      Polled start (clockValues origin start history) bucket := by
  induction run with
  | nil =>
    refine ⟨start, known, stored, rfl, rfl, rfl, rfl, fun _ => .inl ?_⟩
    simp [clockValues, quantaOver]
  | raise _ _ _ => simp [deniedOn] at denied
  | @answer history before next call a _ answered ih =>
    obtain ⟨bucket, found, polled⟩ := ih fun e member => denied e (List.mem_cons_of_mem _ member)
    have refused := denied _ List.mem_cons_self
    have same := blockedAt_congr polled.blocked call.now
    rw [clockValues_cons]
    rcases denied_step answered refused found with ⟨blocked, kept⟩ | ⟨free, placed⟩
    · rw [if_neg (by simp [reachesRefill, ← same, blocked])]
      exact ⟨bucket, kept, polled⟩
    · have mine : call.acquiresOn origin = true := by
        cases call with
        | ensureBucket | releasePermit | expirePermits | blockOrigin => cases refused
        | acquirePermit =>
          cases a with
          | bucket | released | expired => cases refused
          | decision decision =>
            rw [deniedOn, Bool.and_eq_true] at refused
            exact refused.1
      rw [if_pos (by simp [reachesRefill, mine, ← same, free, Except.isOk, Except.toBool])]
      exact ⟨_, placed, polled.refill call.now⟩

/-! ## The delay -/

/-- Where the last call is denied for the rate, so is a single call at its time. -/
def NeverDelays (wait : Wait) (start after : Db) (last : Call) : Prop :=
  deniedForRate wait after last = true → deniedForRate wait start last = true

/-- The missing tokens are earned by the gaps between the refills, each cut to whole quanta, as
soon as they are by the span from the first `last_refill_at` to `now`, cut once. -/
def Undelayed (start : OriginRateBucket) (clocks : List Time) (now : Time) : Prop :=
  1 ≤ start.availableTokens + (quantaOver start.refillPerSecond [now, start.lastRefillAt] : ℚ) / 10000 →
    1 ≤ start.availableTokens + (quantaOver start.refillPerSecond (now :: clocks) : ℚ) / 10000

/-- For every bucket and every denied polls of it: they never delay the next token exactly when `now`
is blocked, the bucket has no room for a whole token, or the single gaps earn the missing quanta as
soon as the whole span does. -/
theorem polls_never_delay_iff {db₀ db : Db} {origin owner : String} {start : OriginRateBucket}
    {history : List Event} {lease : Int} {job : Option Uuid} {draw : Uuid} {now : Time}
    (known : db₀.buckets.find? origin = some start) (stored : start.Stored)
    (run : (machine wait).Run db₀ history db) (denied : ∀ e ∈ history, deniedOn origin e = true)
    (valid : 1 ≤ lease) :
    NeverDelays wait db₀ db (.acquirePermit origin owner lease job draw now) ↔
      start.blockedAt now = true ∨ start.capacityTokens < 1 ∨
        Undelayed start (clockValues origin start history) now := by
  obtain ⟨bucket, found, polled⟩ := run_polled known stored run denied
  have same := blockedAt_congr polled.blocked now
  unfold NeverDelays
  rw [deniedForRate_iff found polled.stored valid, deniedForRate_iff known stored valid, same]
  by_cases blocked : start.blockedAt now = true
  · simp [blocked]
  · rw [Bool.not_eq_true] at blocked
    by_cases room : 1 ≤ start.capacityTokens
    · obtain ⟨positive, low, _⟩ := admissible_bounds stored.admissible
      have single := (refilledTokens_tracks positive low stored.quanta room now).one_le_iff
      have after := ((polled.refill now).tracks room).one_le_iff
      have once : quantaOver start.refillPerSecond [now, start.lastRefillAt] =
          earnedQuanta start.refillPerSecond start.lastRefillAt now := add_zero _
      have last : (bucket.refill now).availableTokens < 1 ↔ ¬1 ≤ start.availableTokens +
          (quantaOver start.refillPerSecond (now :: clockValues origin start history) : ℚ) / 10000 := by
        rw [← after, not_le]
      have first : refilledTokens start now < 1 ↔ ¬1 ≤ start.availableTokens +
          (quantaOver start.refillPerSecond [now, start.lastRefillAt] : ℚ) / 10000 := by
        rw [once, ← single, not_le]
      have shown : refilledTokens bucket now = (bucket.refill now).availableTokens := rfl
      simp only [blocked, true_and, Bool.false_eq_true, not_lt.mpr room, false_or]
      rw [shown, last, first, not_imp_not]
      rfl
    · have small : refilledTokens start now < 1 :=
        (refilledTokens_between stored now).2.1.trans_lt (not_le.mp room)
      simp [blocked, not_le.mp room, small]

namespace Sample

/-- A bucket whose only token was spent at time zero; it earns one in a thousand seconds. -/
def slowBucket : OriginRateBucket :=
  { bucket with refillPerSecond := 1 / 1000, availableTokens := 0 }

def acquireAt (now : Time) : Call := .acquirePermit "o" "worker" 60 none 7 now

def slowDb : Db :=
  ((machine fun _ => 0).replay .empty [.ensureBucket "o" 1 (1 / 1000) 5 0, acquireAt 0]).2

theorem slowDb_bucket : slowDb.buckets.find? "o" = some slowBucket := by decide +kernel

theorem slowBucket_stored : slowBucket.Stored := ⟨by decide +kernel, 0, by norm_num [slowBucket]⟩

/-- One poll at the given time. -/
def polled (now : Time) : List Event × Db := (machine fun _ => 0).replay slowDb [acquireAt now]

end Sample

/-- A poll a tenth of a second before the token is due costs nothing. -/
theorem polls_never_delay_early :
    NeverDelays (fun _ => 0) Sample.slowDb (Sample.polled 999900000).2 (Sample.acquireAt 1000000000) := by
  apply (polls_never_delay_iff Sample.slowDb_bucket Sample.slowBucket_stored
    ((machine fun _ => 0).run_replay Sample.slowDb [Sample.acquireAt 999900000]) ?_ (by decide)).mpr
  · right
    right
    show 1 ≤ _ → 1 ≤ _
    decide +kernel
  · decide +kernel

/-- A denied poll half a quantum before the token is due: at the due time the bucket is still short
of it, and without the poll it would not be. -/
theorem poll_delays_next_token :
    (∀ e ∈ (Sample.polled 999950000).1, deniedOn "o" e = true ∧ e.call.now ≤ 1000000000) ∧
      ¬ NeverDelays (fun _ => 0) Sample.slowDb (Sample.polled 999950000).2
        (Sample.acquireAt 1000000000) := by
  constructor
  · decide +kernel
  · intro never
    have last : deniedForRate (fun _ => 0) (Sample.polled 999950000).2 (Sample.acquireAt 1000000000) = true := by
      decide +kernel
    have single : deniedForRate (fun _ => 0) Sample.slowDb (Sample.acquireAt 1000000000) = false := by
      decide +kernel
    have denied := never last
    rw [single] at denied
    cases denied

end Collector.Persistence.Limiter
