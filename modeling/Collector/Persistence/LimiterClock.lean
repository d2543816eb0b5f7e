import Collector.Persistence.LimiterSafety

/-!
The limiter under clocks that disagree. An acquire moves `last_refill_at` to its own `now`, also
backwards; the span up to the next call is then credited a second time. The refill is credited
once exactly when the clock values that get as far as the refill do not go back.
-/

namespace Collector.Persistence.Limiter
open Collector.Lib

variable {wait : Wait}

/-- The call is an acquire, on whatever origin. -/
def Call.acquires : Call → Bool
  | .acquirePermit .. => true
  | _ => false

def Call.acquiresOn (origin : String) : Call → Bool
  | .acquirePermit here _ _ _ _ _ => decide (here = origin)
  | _ => false

/-- An acquire on the origin that returns and finds the block, if there is one, behind it. -/
def reachesRefill (origin : String) (start : OriginRateBucket) (e : Event) : Bool :=
  e.call.acquiresOn origin && e.outcome.isOk && !start.blockedAt e.call.now

/-- The values of `now` that reach the refill, newest first, down to the first `last_refill_at`. -/
def clockValues (origin : String) (start : OriginRateBucket) (history : List Event) : List Time :=
  ((history.filter (reachesRefill origin start)).map fun e => e.call.now) ++ [start.lastRefillAt]

/-- The latest `now` of a run, and not before the first `last_refill_at`. -/
def latest (start : OriginRateBucket) (history : List Event) : Time :=
  history.foldr (fun e t => max e.call.now t) start.lastRefillAt

/-- `last_refill_at` never goes back, and no more permits are handed out than the bucket can hold
and earn from the first `last_refill_at` to the latest `now`. -/
structure CreditedOnce (wait : Wait) (db : Db) (origin : String) (start : OriginRateBucket)
    (history : List Event) : Prop where
  forward : ∀ newer e older before after bucket next, history = newer ++ e :: older →
    (machine wait).Run db older before → (machine wait).Run db (e :: older) after →
    before.buckets.find? origin = some bucket → after.buckets.find? origin = some next →
    bucket.lastRefillAt ≤ next.lastRefillAt
  bounded : (grants origin (fun _ => true) history : ℚ) ≤ start.capacityTokens +
    start.refillPerSecond * (totalSeconds (latest start history) - totalSeconds start.lastRefillAt)

/-- What an acquire does to a bucket: nothing, or a refill and perhaps the permit. -/
theorem acquire_step {db next : Db} {call : Call} {a : Answer} {origin : String}
    {bucket : OriginRateBucket} (acquires : call.acquires = true)
    (answered : (machine wait).exec call db = .ok (a, next))
    (known : db.buckets.find? origin = some bucket) :
    ((call.acquiresOn origin = false ∨ bucket.blockedAt call.now = true) ∧
      next.buckets.find? origin = some bucket ∧ permits origin call a = 0) ∨
    (call.acquiresOn origin = true ∧ bucket.blockedAt call.now = false ∧
      ((next.buckets.find? origin = some (bucket.refill call.now) ∧ permits origin call a = 0) ∨
       (next.buckets.find? origin = some (bucket.refill call.now).spend ∧
        permits origin call a = 1 ∧ 1 ≤ (bucket.refill call.now).availableTokens))) := by
  cases call with
  | ensureBucket | releasePermit | expirePermits | blockOrigin => cases acquires
  | acquirePermit here owner lease job draw now =>
    obtain ⟨decision, done, rfl⟩ := answer_eq_ok.mp answered
    obtain ⟨found, there, outcome⟩ := acquirePermit_cases done
    by_cases mine : here = origin
    · cases mine
      rw [known] at there
      cases there
      rcases outcome with ⟨blocked, refused, rfl⟩ | ⟨free, refused, rfl⟩ |
        ⟨free, accepted, _, enough, _, rfl⟩
      · exact .inl ⟨.inr blocked, known, by simp [permits, granted, refused]⟩
      · refine .inr ⟨by simp [Call.acquiresOn], free, .inl ⟨?_, by simp [permits, granted, refused]⟩⟩
        exact (find?_putBucket (bucket.refill now) known rfl origin).trans (if_pos rfl)
      · refine .inr ⟨by simp [Call.acquiresOn], free,
          .inr ⟨?_, by simp [permits, granted, accepted], enough⟩⟩
        exact (find?_putBucket (bucket.refill now).spend known rfl origin).trans (if_pos rfl)
    · left
      refine ⟨.inl (by simp [Call.acquiresOn, mine]), ?_, by simp [permits, granted, mine]⟩
      rcases outcome with ⟨_, _, rfl⟩ | ⟨_, _, rfl⟩ | ⟨_, _, _, _, _, rfl⟩
      · exact known
      · exact (find?_putBucket (found.refill now) there rfl origin).trans
          ((if_neg (Ne.symm mine)).trans known)
      · exact (find?_putBucket (found.refill now).spend there rfl origin).trans
          ((if_neg (Ne.symm mine)).trans known)

theorem blockedAt_congr {bucket start : OriginRateBucket}
    (same : bucket.blockedUntil = start.blockedUntil) (now : Time) :
    bucket.blockedAt now = start.blockedAt now := by
  unfold OriginRateBucket.blockedAt
  rw [same]

theorem clockValues_cons (origin : String) (start : OriginRateBucket) (e : Event)
    (history : List Event) :
    clockValues origin start (e :: history) = if reachesRefill origin start e then
      e.call.now :: clockValues origin start history else clockValues origin start history := by
  unfold clockValues
  rw [List.filter_cons]
  split
  · rfl
  · rfl

/-- Throughout a run of acquires the block stays as it was, and `last_refill_at` is the newest
clock value that reached the refill. -/
theorem run_clock {db₀ db : Db} {origin : String} {start : OriginRateBucket} {history : List Event}
    (known : db₀.buckets.find? origin = some start) (run : (machine wait).Run db₀ history db)
    (acquires : ∀ e ∈ history, e.call.acquires = true) :
    ∃ bucket, db.buckets.find? origin = some bucket ∧
      bucket.blockedUntil = start.blockedUntil ∧
      (clockValues origin start history).head? = some bucket.lastRefillAt := by
  induction run with
  | nil => exact ⟨start, known, rfl, rfl⟩
  | raise _ _ ih =>
    obtain ⟨bucket, found, still, newest⟩ := ih fun e member => acquires e (List.mem_cons_of_mem _ member)
    refine ⟨bucket, found, still, ?_⟩
    rw [clockValues_cons, if_neg (by simp [reachesRefill, Except.isOk, Except.toBool])]
    exact newest
  | @answer history before next call a _ answered ih =>
    obtain ⟨bucket, found, still, newest⟩ := ih fun e member => acquires e (List.mem_cons_of_mem _ member)
    rw [clockValues_cons]
    have same := blockedAt_congr still call.now
    rcases acquire_step (acquires _ List.mem_cons_self) answered found with
      ⟨aside, kept, _⟩ | ⟨mine, free, outcome⟩
    · refine ⟨bucket, kept, still, ?_⟩
      rw [if_neg]
      · exact newest
      · rcases aside with other | blocked
        · simp [reachesRefill, other]
        · simp [reachesRefill, ← same, blocked]
    · have reached : reachesRefill origin start ⟨call, .ok a⟩ = true := by
        simp [reachesRefill, mine, ← same, free, Except.isOk, Except.toBool]
      rw [if_pos reached]
      rcases outcome with ⟨placed, _⟩ | ⟨placed, _⟩
      · exact ⟨_, placed, still, rfl⟩
      · exact ⟨_, placed, still, rfl⟩

/-- The clock values do not go back. -/
def Forward (origin : String) (start : OriginRateBucket) (history : List Event) : Prop :=
  (clockValues origin start history).Pairwise fun newer older => older ≤ newer

theorem forward_cons {origin : String} {start : OriginRateBucket} {e : Event} {older : List Event}
    {last next : Time} (before : (clockValues origin start older).head? = some last)
    (after : (clockValues origin start (e :: older)).head? = some next) :
    Forward origin start (e :: older) ↔ Forward origin start older ∧ last ≤ next := by
  have : Trans (fun newer older : Time => older ≤ newer) (fun newer older => older ≤ newer)
      (fun newer older => older ≤ newer) := ⟨fun first second => second.trans first⟩
  unfold Forward
  rw [clockValues_cons] at after ⊢
  split at after
  · rename_i reached
    cases after
    rw [if_pos reached]
    obtain ⟨rest, split⟩ := List.head?_eq_some_iff.mp before
    rw [split, ← List.isChain_iff_pairwise, ← List.isChain_iff_pairwise, List.isChain_cons_cons,
      and_comm]
  · rename_i missed
    rw [if_neg missed]
    rw [before] at after
    cases after
    exact (and_iff_left le_rfl).symm

/-- The bucket after a refill: it moved to the call's time, and what was spent is gone. -/
theorem refilled_after {origin : String} {call : Call} {a : Answer} {bucket after : OriginRateBucket}
    (outcome : (after = bucket.refill call.now ∧ permits origin call a = 0) ∨
      (after = (bucket.refill call.now).spend ∧ permits origin call a = 1 ∧
        1 ≤ (bucket.refill call.now).availableTokens)) :
    after.lastRefillAt = call.now ∧ after.capacityTokens = bucket.capacityTokens ∧
      after.refillPerSecond = bucket.refillPerSecond ∧
      after.availableTokens + permits origin call a = (bucket.refill call.now).availableTokens ∧
      (0 ≤ (bucket.refill call.now).availableTokens → 0 ≤ after.availableTokens) := by
  rcases outcome with ⟨rfl, none⟩ | ⟨rfl, one, enough⟩
  · rw [none]
    exact ⟨rfl, rfl, rfl, add_zero _, id⟩
  · rw [one]
    exact ⟨rfl, rfl, rfl, sub_add_cancel _ _, fun _ => sub_nonneg.mpr enough⟩

/-- Along a run of acquires whose clock values do not go back, the permits come out of the reserve
at the start. -/
theorem run_acquires {db₀ db : Db} {origin : String} {start : OriginRateBucket} {history : List Event}
    (known : db₀.buckets.find? origin = some start) (admissible : start.admissible = true)
    (run : (machine wait).Run db₀ history db) (acquires : ∀ e ∈ history, e.call.acquires = true)
    (forward : Forward origin start history) :
    ∃ bucket, db.buckets.find? origin = some bucket ∧
      bucket.capacityTokens = start.capacityTokens ∧
      bucket.refillPerSecond = start.refillPerSecond ∧
      0 ≤ bucket.availableTokens ∧ ∀ t, latest start history ≤ t →
        (grants origin (fun _ => true) history : ℚ) +
            (level bucket).reserve start.refillPerSecond (totalSeconds t) ≤
          (level start).reserve start.refillPerSecond (totalSeconds t) := by
  obtain ⟨positive, low, high⟩ := admissible_bounds admissible
  induction run with
  | nil => exact ⟨start, known, rfl, rfl, low, by simp [grants]⟩
  | @raise history db call e run raised ih =>
    have earlier : ∀ e ∈ history, e.call.acquires = true := fun e member =>
      acquires e (List.mem_cons_of_mem _ member)
    obtain ⟨bucket, found, still, newest⟩ := run_clock known run earlier
    obtain ⟨bucket', found', still', newest'⟩ := run_clock known (run.raise raised) acquires
    obtain ⟨rest, _⟩ := (forward_cons newest newest').mp forward
    obtain ⟨_, there, capacity, rate, nonneg, bound⟩ := ih earlier rest
    refine ⟨_, there, capacity, rate, nonneg, fun t passed => ?_⟩
    have inTime : latest start history ≤ t := (le_max_right _ _).trans passed
    simpa [grants, grantedBy] using bound t inTime
  | @answer history before next call a run answered ih =>
    have earlier : ∀ e ∈ history, e.call.acquires = true := fun e member =>
      acquires e (List.mem_cons_of_mem _ member)
    obtain ⟨bucket, found, still, newest⟩ := run_clock known run earlier
    obtain ⟨after, placed, _, newest'⟩ := run_clock known (run.answer answered) acquires
    obtain ⟨rest, later⟩ := (forward_cons newest newest').mp forward
    obtain ⟨_, there, capacity, rate, nonneg, bound⟩ := ih earlier rest
    rw [found] at there
    cases there
    have count : (grants origin (fun _ => true) (⟨call, .ok a⟩ :: history) : ℚ) =
        grants origin (fun _ => true) history + permits origin call a := by
      simp [grants, grantedBy, permits, List.countP_cons]
    rcases acquire_step (acquires _ List.mem_cons_self) answered found with
      ⟨_, kept, none⟩ | ⟨_, _, outcome⟩
    · refine ⟨bucket, kept, capacity, rate, nonneg, fun t passed => ?_⟩
      have inTime : latest start history ≤ t := (le_max_right _ _).trans passed
      rw [count, none, Nat.cast_zero, add_zero]
      exact bound t inTime
    · -- the refill moves `last_refill_at` to `now`, which `later` puts after the one before
      simp only [placed, Option.some.injEq] at outcome
      obtain ⟨since, capacity', rate', spent, nonneg'⟩ := refilled_after outcome
      rw [since] at later
      have rated : 0 ≤ bucket.refillPerSecond := rate ▸ positive.le
      have capped : 0 ≤ bucket.capacityTokens := capacity ▸ low.trans high
      obtain ⟨low', _⟩ := refilledTokens_bounds nonneg rated capped later
      refine ⟨after, placed, capacity'.trans capacity, rate'.trans rate, nonneg' low',
        fun t passed => ?_⟩
      have inTime : latest start history ≤ t := (le_max_right _ _).trans passed
      have now : call.now ≤ t := (le_max_left _ _).trans passed
      have step := reserve_spent nonneg rated capped later since spent (totalSeconds_le.mpr now)
      have total := bound t inTime
      rw [rate] at step
      rw [count]
      linarith

theorem clockValues_append (origin : String) (start : OriginRateBucket) (newer older : List Event) :
    clockValues origin start (newer ++ older) =
      ((newer.filter (reachesRefill origin start)).map fun e => e.call.now) ++
        clockValues origin start older := by
  unfold clockValues
  rw [List.filter_append, List.map_append, List.append_assoc]

theorem Forward.of_append {origin : String} {start : OriginRateBucket} {newer older : List Event}
    (forward : Forward origin start (newer ++ older)) : Forward origin start older := by
  unfold Forward at forward
  rw [clockValues_append] at forward
  exact (List.pairwise_append.mp forward).2.1

theorem forward_of_never_back {db₀ db : Db} {origin : String} {start : OriginRateBucket}
    {history : List Event} (known : db₀.buckets.find? origin = some start)
    (run : (machine wait).Run db₀ history db) (acquires : ∀ e ∈ history, e.call.acquires = true)
    (never : ∀ newer e older before after bucket next, history = newer ++ e :: older →
      (machine wait).Run db₀ older before → (machine wait).Run db₀ (e :: older) after →
      before.buckets.find? origin = some bucket → after.buckets.find? origin = some next →
      bucket.lastRefillAt ≤ next.lastRefillAt) : Forward origin start history := by
  induction history generalizing db with
  | nil => simp [Forward, clockValues]
  | cons e history ih =>
    have earlier : ∀ e ∈ history, e.call.acquires = true := fun e member =>
      acquires e (List.mem_cons_of_mem _ member)
    have whole : (machine wait).Run db₀ ([e] ++ history) db := run
    obtain ⟨before, first, _⟩ := whole.split
    obtain ⟨bucket, found, _, newest⟩ := run_clock known first earlier
    obtain ⟨next, placed, _, newest'⟩ := run_clock known run acquires
    apply (forward_cons newest newest').mpr
    refine ⟨ih first earlier ?_, never [] e history before db bucket next rfl first run found placed⟩
    rintro newer x older before after bucket next rfl
    exact never (e :: newer) x older before after bucket next rfl

theorem le_latest (start : OriginRateBucket) (history : List Event) :
    start.lastRefillAt ≤ latest start history := by
  induction history with
  | nil => exact le_rfl
  | cons e history ih => exact ih.trans (le_max_right _ _)

/-- For every bucket and every run of acquires: the refill is credited once exactly when the clock
values that reach it do not go back. -/
theorem refill_credited_once_iff {db₀ db : Db} {origin : String} {start : OriginRateBucket}
    {history : List Event} (known : db₀.buckets.find? origin = some start)
    (admissible : start.admissible = true) (run : (machine wait).Run db₀ history db)
    (acquires : ∀ e ∈ history, e.call.acquires = true) :
    CreditedOnce wait db₀ origin start history ↔ Forward origin start history := by
  constructor
  · intro once
    exact forward_of_never_back known run acquires once.forward
  · intro forward
    constructor
    · rintro newer e older before after bucket next rfl first second found placed
      have made : ∀ x ∈ e :: older, x.call.acquires = true := fun x member =>
        acquires x (List.mem_append_right _ member)
      obtain ⟨_, found', _, newest⟩ := run_clock known first fun x member =>
        made x (List.mem_cons_of_mem _ member)
      obtain ⟨_, placed', _, newest'⟩ := run_clock known second made
      rw [found] at found'
      rw [placed] at placed'
      cases found'
      cases placed'
      exact ((forward_cons newest newest').mp forward.of_append).2
    · obtain ⟨positive, low, high⟩ := admissible_bounds admissible
      obtain ⟨bucket, _, _, _, nonneg, bound⟩ := run_acquires known admissible run acquires forward
      have total := bound (latest start history) le_rfl
      have rest : 0 ≤ (level bucket).reserve start.refillPerSecond
          (totalSeconds (latest start history)) := reserve_nonneg positive.le nonneg
      have elapsed : 0 ≤ totalSeconds (latest start history) - totalSeconds start.lastRefillAt := by
        exact sub_nonneg.mpr (totalSeconds_le.mpr (le_latest start history))
      have reserve : (level start).reserve start.refillPerSecond (totalSeconds (latest start history)) =
          start.availableTokens + start.refillPerSecond *
            (totalSeconds (latest start history) - totalSeconds start.lastRefillAt) := by
        show _ + _ * max (totalSeconds (latest start history) - totalSeconds start.lastRefillAt) 0 = _
        rw [max_eq_left elapsed]
        rfl
      linarith

namespace Sample

/-- One token, one more a second. -/
def bucket : OriginRateBucket where
  origin := "o"
  capacityTokens := 1
  refillPerSecond := 1
  availableTokens := 1
  lastRefillAt := 0
  maxConcurrency := 5
  blockedUntil := none
  blockReason := none
  revision := 1
  createdAt := 0
  updatedAt := 0

def db : Db := ((machine fun _ => 0).replay .empty [.ensureBucket "o" 1 1 5 0]).2

theorem db_bucket : db.buckets.find? "o" = some bucket := by decide +kernel

/-- Acquires at the given seconds. -/
def acquires (clocks : List Int) : List Call :=
  clocks.map fun clock => .acquirePermit "o" "worker" 60 none 7 (seconds clock)

def history (clocks : List Int) : List Event := ((machine fun _ => 0).replay db (acquires clocks)).1

end Sample

theorem refill_credited_once_ascending :
    CreditedOnce (fun _ => 0) Sample.db "o" Sample.bucket (Sample.history [1, 2, 2, 4]) := by
  apply (refill_credited_once_iff Sample.db_bucket (by decide +kernel)
    ((machine fun _ => 0).run_replay Sample.db (Sample.acquires [1, 2, 2, 4])) ?_).mpr
  · show List.Pairwise _ (clockValues "o" Sample.bucket (Sample.history [1, 2, 2, 4]))
    decide +kernel
  · decide +kernel

/-- Two clocks, one second apart, in turn: three permits by the end of the first second, where the
bucket can hold one and earn one. -/
theorem skewed_clocks_credit_twice :
    ¬ CreditedOnce (fun _ => 0) Sample.db "o" Sample.bucket (Sample.history [1, 0, 1, 0, 1]) := by
  intro once
  have count : grants "o" (fun _ => true) (Sample.history [1, 0, 1, 0, 1]) = 3 := by decide +kernel
  have moment : latest Sample.bucket (Sample.history [1, 0, 1, 0, 1]) = seconds 1 := by decide +kernel
  have bounded := once.bounded
  rw [count, moment] at bounded
  norm_num [Sample.bucket, totalSeconds, seconds] at bounded

end Collector.Persistence.Limiter
