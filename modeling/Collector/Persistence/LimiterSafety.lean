import Collector.Persistence.LimiterRuns

/-!
What the limiter promises an origin, over every run whose clock does not go back: the tokens stay
within the capacity, the slots are not exceeded, and in every window no more permits are handed
out than the bucket can hold and earn; after a block it starts from nothing.
-/

namespace Collector.Persistence.Limiter
open Collector.Lib

variable {C R : ℚ} {K : Int} {wait : Wait}

/-- The clock of a run, newest call first, does not go back, and its calls on the origin name one
configuration and blocks that end no earlier than they start. -/
structure Regular (origin : String) (C R : ℚ) (K : Int) (history : List Event) : Prop where
  clock : history.Pairwise fun newer older => older.call.now ≤ newer.call.now
  calls : ∀ e ∈ history, e.call.regular origin C R K

theorem Regular.of_append {origin : String} {newer older : List Event}
    (regular : Regular origin C R K (newer ++ older)) : Regular origin C R K older where
  clock := (List.pairwise_append.mp regular.clock).2.1
  calls e member := regular.calls e (List.mem_append_right _ member)

theorem Regular.head {origin : String} {e : Event} {older : List Event}
    (regular : Regular origin C R K (e :: older)) :
    (∀ x ∈ older, x.call.now ≤ e.call.now) ∧ e.call.regular origin C R K ∧
      Regular origin C R K older := by
  have whole : Regular origin C R K ([e] ++ older) := regular
  exact ⟨(List.pairwise_cons.mp regular.clock).1, regular.calls e List.mem_cons_self,
    whole.of_append⟩

/-- The bucket of the origin is sound after every regular run. -/
theorem run_sound {origin : String} {history : List Event} {db : Db}
    (run : (machine wait).Run .empty history db) (regular : Regular origin C R K history) {now : Time}
    (passed : ∀ e ∈ history, e.call.now ≤ now) {bucket : OriginRateBucket}
    (found : db.buckets.find? origin = some bucket) : Sound C R K now bucket := by
  induction run generalizing now bucket with
  | nil => cases found
  | raise _ _ ih =>
    exact ih regular.head.2.2 (fun e member => passed e (List.mem_cons_of_mem _ member)) found
  | @answer older before next call a run answered ih =>
    obtain ⟨earlier, fits, rest⟩ := regular.head
    have effect := exec_effect origin answered
    have late : call.now ≤ now := passed _ List.mem_cons_self
    apply Sound.mono _ late
    cases known : before.buckets.find? origin with
    | none => exact effect.created_sound fits known found
    | some old =>
      obtain ⟨after, placed, sound, _⟩ := effect.paid fits known (ih rest earlier known)
      rw [placed] at found
      cases found
      exact sound

theorem exists_bound (history : List Event) : ∃ now, ∀ e ∈ history, e.call.now ≤ now := by
  induction history with
  | nil => exact ⟨0, by simp⟩
  | cons e history ih =>
    obtain ⟨now, passed⟩ := ih
    refine ⟨max e.call.now now, fun x member => ?_⟩
    rcases List.mem_cons.mp member with rfl | member
    · exact le_max_left _ _
    · exact (passed x member).trans (le_max_right _ _)

/-- The entry is a permit for the origin. -/
def grantedBy (origin : String) (e : Event) : Bool :=
  match e.outcome with
  | .ok a => granted origin e.call a
  | .error _ => false

/-- The permits for the origin at the times of a period. -/
def grants (origin : String) (period : Time → Bool) (history : List Event) : Nat :=
  history.countP fun e => grantedBy origin e && period e.call.now

/-- What is handed out by `t` after some point of a run is in the reserve at that point. -/
theorem run_reserve {origin : String} {newer older : List Event} {middle db : Db}
    {start : OriginRateBucket} (first : (machine wait).Run .empty older middle)
    (second : (machine wait).Run middle newer db)
    (regular : Regular origin C R K (newer ++ older))
    (found : middle.buckets.find? origin = some start) (t : Time) :
    ∃ bucket, db.buckets.find? origin = some bucket ∧
      (grants origin (fun now => decide (now ≤ t)) newer : ℚ) ≤
        (level start).reserve R (totalSeconds t) ∧
      ((∀ e ∈ newer, e.call.now ≤ t) →
        (grants origin (fun now => decide (now ≤ t)) newer : ℚ) +
            (level bucket).reserve R (totalSeconds t) ≤
          (level start).reserve R (totalSeconds t)) := by
  induction second with
  | nil =>
    obtain ⟨now, passed⟩ := exists_bound older
    have sound := run_sound first regular passed found
    refine ⟨start, found, ?_, fun _ => ?_⟩
    · simpa [grants] using reserve_nonneg sound.positive.le sound.low
    · simp [grants]
  | raise _ _ ih =>
    obtain ⟨bucket, there, bound, strong⟩ := ih regular.head.2.2
    refine ⟨bucket, there, ?_, fun within => ?_⟩
    · simpa [grants, grantedBy] using bound
    · have inside := strong fun e member => within e (List.mem_cons_of_mem _ member)
      simpa [grants, grantedBy] using inside
  | @answer newer before next call a run answered ih =>
    obtain ⟨earlier, fits, rest⟩ := regular.head
    obtain ⟨bucket, there, bound, strong⟩ := ih rest
    have sound := run_sound (first.trans run) rest earlier there
    obtain ⟨after, placed, kept, paid⟩ := (exec_effect origin answered).paid fits there sound
    refine ⟨after, placed, ?_⟩
    by_cases inside : call.now ≤ t
    · have all : ∀ e ∈ newer, e.call.now ≤ t := fun e member =>
        (earlier e (List.mem_append_left _ member)).trans inside
      have step := paid (totalSeconds t) (totalSeconds_le.mpr inside)
      have whole : (grants origin (fun now => decide (now ≤ t)) (⟨call, .ok a⟩ :: newer) : ℚ) =
          grants origin (fun now => decide (now ≤ t)) newer + permits origin call a := by
        simp [grants, grantedBy, permits, List.countP_cons, inside]
      have total := strong all
      have positive : 0 ≤ (level after).reserve R (totalSeconds t) :=
        reserve_nonneg kept.positive.le kept.low
      rw [whole]
      constructor
      · linarith
      · intro _
        linarith
    · have same : grants origin (fun now => decide (now ≤ t)) (⟨call, .ok a⟩ :: newer) =
          grants origin (fun now => decide (now ≤ t)) newer := by
        simp [grants, inside]
      rw [same]
      exact ⟨bound, fun within => absurd (within _ List.mem_cons_self) inside⟩

/-- The oldest element of a list with a property. -/
theorem exists_oldest {α : Type} (p : α → Bool) (xs : List α) :
    xs.countP p = 0 ∨ ∃ newer x older, xs = newer ++ x :: older ∧ p x = true ∧ older.countP p = 0 := by
  induction xs with
  | nil => exact .inl rfl
  | cons x xs ih =>
    rcases ih with none | ⟨newer, y, older, rfl, here, none⟩
    · by_cases hit : p x = true
      · exact .inr ⟨[], x, xs, rfl, hit, none⟩
      · exact .inl (by rw [List.countP_cons_of_neg hit, none])
    · exact .inr ⟨x :: newer, y, older, rfl, here, none⟩

/-- A permit was paid for: the last entry of a run with the states around it. -/
theorem granted_cases {origin : String} {e : Event} {older : List Event} {db : Db}
    (run : (machine wait).Run .empty (e :: older) db) (acquired : grantedBy origin e = true) :
    ∃ before bucket, (machine wait).Run .empty older before ∧
      before.buckets.find? origin = some bucket ∧ bucket.blockedAt e.call.now = false ∧
      1 ≤ (bucket.refill e.call.now).availableTokens ∧
      ((before.livePermits origin e.call.now).length : Int) < bucket.maxConcurrency ∧
      db.buckets.find? origin = some (bucket.refill e.call.now).spend ∧
      (db.livePermits origin e.call.now).length =
        (before.livePermits origin e.call.now).length + 1 := by
  cases run with
  | raise => cases acquired
  | @answer _ before _ call a earlier answered =>
    have accepted : granted origin call a = true := acquired
    refine ⟨before, ?_⟩
    cases exec_effect origin answered with
    | untouched _ silent | refilled _ _ _ _ _ _ silent =>
      rw [silent] at accepted
      cases accepted
    | created _ _ _ _ _ called | configured _ _ _ _ _ _ called | blocked _ _ _ _ _ _ called
    | kept _ _ _ _ _ _ called =>
      cases called
      cases accepted
    | spent bucket now called known free enough slot placed live =>
      cases called
      exact ⟨bucket, earlier, known, free, enough, slot, placed, live⟩

/-- Right after a grant the bucket is at least one token short of its capacity, and it earns from
the moment of the grant on. -/
theorem reserve_granted {origin : String} {e : Event} {older : List Event} {db : Db}
    (run : (machine wait).Run .empty (e :: older) db) (regular : Regular origin C R K (e :: older))
    (acquired : grantedBy origin e = true) :
    ∃ bucket, db.buckets.find? origin = some bucket ∧ ∀ t, e.call.now ≤ t →
      1 + (level bucket).reserve R (totalSeconds t) ≤
        C + R * (totalSeconds t - totalSeconds e.call.now) := by
  obtain ⟨before, bucket, earlier, known, free, _, _, placed, _⟩ := granted_cases run acquired
  obtain ⟨passed, fits, rest⟩ := regular.head
  have refilled := (run_sound earlier rest passed known).refill free
  refine ⟨_, placed, fun t later => ?_⟩
  have elapsed : 0 ≤ totalSeconds t - totalSeconds e.call.now :=
    sub_nonneg.mpr (totalSeconds_le.mpr later)
  have reserve : (level (bucket.refill e.call.now).spend).reserve R (totalSeconds t) =
      ((bucket.refill e.call.now).availableTokens - 1) +
        R * (totalSeconds t - totalSeconds e.call.now) := by
    show _ + R * max (totalSeconds t - totalSeconds e.call.now) 0 = _
    rw [max_eq_left elapsed]
    rfl
  have high := refilled.high
  rw [reserve]
  linarith

theorem window_bound {origin : String} {history : List Event} {db : Db}
    (run : (machine wait).Run .empty history db) (regular : Regular origin C R K history)
    (capacity : 0 < C) (rate : 0 < R) {s t : Time} (ordered : s ≤ t) :
    (grants origin (fun now => decide (s ≤ now ∧ now ≤ t)) history : ℚ) ≤
      C + R * (totalSeconds t - totalSeconds s) := by
  have length : 0 ≤ totalSeconds t - totalSeconds s := sub_nonneg.mpr (totalSeconds_le.mpr ordered)
  rcases exists_oldest (fun e : Event => grantedBy origin e &&
      decide (s ≤ e.call.now ∧ e.call.now ≤ t)) history with
    none | ⟨newer, e, older, rfl, here, none⟩
  · rw [grants, none, Nat.cast_zero]
    positivity
  · rw [Bool.and_eq_true, decide_eq_true_eq] at here
    obtain ⟨acquired, after, inTime⟩ := here
    obtain ⟨middle, first, second⟩ := run.split
    obtain ⟨bucket, found, bound⟩ := reserve_granted first regular.of_append acquired
    obtain ⟨_, _, later, _⟩ := run_reserve first second regular found t
    have fewer : grants origin (fun now => decide (s ≤ now ∧ now ≤ t)) newer ≤
        grants origin (fun now => decide (now ≤ t)) newer := by
      apply List.countP_mono_left
      intro x _
      simp only [Bool.and_eq_true, decide_eq_true_eq]
      exact fun inside => ⟨inside.1, inside.2.2⟩
    have count : grants origin (fun now => decide (s ≤ now ∧ now ≤ t)) (newer ++ e :: older) =
        grants origin (fun now => decide (s ≤ now ∧ now ≤ t)) newer + 1 := by
      rw [grants, grants, List.countP_append, List.countP_cons, none]
      simp [acquired, after, inTime]
    have fewer' : (grants origin (fun now => decide (s ≤ now ∧ now ≤ t)) newer : ℚ) ≤
        grants origin (fun now => decide (now ≤ t)) newer := by exact_mod_cast fewer
    have shorter : R * (totalSeconds t - totalSeconds e.call.now) ≤
        R * (totalSeconds t - totalSeconds s) := by
      apply mul_le_mul_of_nonneg_left _ rate.le
      exact sub_le_sub_left (totalSeconds_le.mpr after) _
    have total := bound t inTime
    rw [count]
    push_cast
    linarith

/-- Right after a block the bucket is empty and earns nothing before the block ends, also where an
earlier block was the longer one. -/
theorem block_empties {origin : String} {older : List Event} {db : Db} {a : Answer}
    {untilTime now : Time} {actor reason : String} {requestId : Option String}
    (run : (machine wait).Run .empty
      (⟨.blockOrigin origin untilTime actor reason requestId now, .ok a⟩ :: older) db)
    (regular : Regular origin C R K
      (⟨.blockOrigin origin untilTime actor reason requestId now, .ok a⟩ :: older)) :
    ∃ bucket, db.buckets.find? origin = some bucket ∧ bucket.availableTokens = 0 ∧
      untilTime ≤ bucket.lastRefillAt ∧ 0 < R := by
  obtain ⟨passed, fits, rest⟩ := regular.head
  cases run with
  | answer earlier answered =>
    cases exec_effect origin answered with
    | untouched _ _ other | refilled _ _ _ _ _ _ _ other | spent _ _ _ _ _ _ _ _ _ _ other =>
      simp [blocking] at other
    | created _ _ _ _ _ called | configured _ _ _ _ _ _ called => cases called
    | blocked bucket _ _ _ _ _ called known longer placed =>
      cases called
      have sound := run_sound earlier rest passed known
      exact ⟨_, placed, rfl, le_rfl, sound.positive⟩
    | kept bucket _ _ _ _ _ called known shorter same =>
      cases called
      cases same
      have sound := run_sound earlier rest passed known
      cases blocked : bucket.blockedUntil with
      | none => simp [OriginRateBucket.extendedBy, blocked] at shorter
      | some until' =>
        have longer : untilTime ≤ until' := by
          simpa [OriginRateBucket.extendedBy, blocked] using shorter
        obtain ⟨empty, since⟩ := sound.idle until' blocked ((fits rfl).trans longer)
        exact ⟨bucket, known, empty, longer.trans since, sound.positive⟩

theorem block_bound {origin : String} {newer older : List Event} {e : Event} {db : Db}
    (run : (machine wait).Run .empty (newer ++ e :: older) db)
    (regular : Regular origin C R K (newer ++ e :: older)) {a : Answer} {untilTime now : Time}
    {actor reason : String} {requestId : Option String}
    (called : e.call = .blockOrigin origin untilTime actor reason requestId now)
    (answered : e.outcome = .ok a) (t : Time) :
    (grants origin (fun now => decide (now ≤ t)) newer : ℚ) ≤
      R * max (totalSeconds t - totalSeconds untilTime) 0 := by
  obtain ⟨call, outcome⟩ := e
  cases called
  cases answered
  obtain ⟨middle, first, second⟩ := run.split
  obtain ⟨bucket, found, empty, since, rate⟩ := block_empties first regular.of_append
  obtain ⟨_, _, bound, _⟩ := run_reserve first second regular found t
  have reserve : (level bucket).reserve R (totalSeconds t) ≤
      R * max (totalSeconds t - totalSeconds untilTime) 0 := by
    show bucket.availableTokens + R * max (totalSeconds t - totalSeconds bucket.lastRefillAt) 0 ≤ _
    rw [empty, zero_add]
    apply mul_le_mul_of_nonneg_left _ rate.le
    exact max_le_max (sub_le_sub_left (totalSeconds_le.mpr since) _) le_rfl
  exact bound.trans reserve

/-- Safety of the limiter for one origin, over every regular run. -/
theorem limiter_safety {origin : String} {history : List Event} {db : Db} (capacity : 0 < C)
    (rate : 0 < R) (run : (machine wait).Run .empty history db)
    (regular : Regular origin C R K history) :
    (∀ bucket, db.buckets.find? origin = some bucket →
      0 ≤ bucket.availableTokens ∧ bucket.availableTokens ≤ C) ∧
    (∀ e older, history = e :: older → grantedBy origin e = true →
      ((db.livePermits origin e.call.now).length : Int) ≤ K) ∧
    (∀ s t, s ≤ t → (grants origin (fun now => decide (s ≤ now ∧ now ≤ t)) history : ℚ) ≤
      C + R * (totalSeconds t - totalSeconds s)) ∧
    (∀ e older before bucket blocked, history = e :: older →
      (machine wait).Run .empty older before → before.buckets.find? origin = some bucket →
      bucket.blockedUntil = some blocked → grantedBy origin e = true → blocked ≤ e.call.now) ∧
    (∀ newer e older a untilTime actor reason requestId now t, history = newer ++ e :: older →
      e.call = .blockOrigin origin untilTime actor reason requestId now → e.outcome = .ok a →
      (grants origin (fun now => decide (now ≤ t)) newer : ℚ) ≤
        R * max (totalSeconds t - totalSeconds untilTime) 0) := by
  refine ⟨fun bucket found => ?_, ?_, fun s t ordered => window_bound run regular capacity rate ordered,
    ?_, ?_⟩
  · obtain ⟨now, passed⟩ := exists_bound history
    have sound := run_sound run regular passed found
    exact ⟨sound.low, sound.high⟩
  · rintro e older rfl acquired
    obtain ⟨before, bucket, earlier, known, _, _, slot, _, live⟩ := granted_cases run acquired
    obtain ⟨passed, _, rest⟩ := regular.head
    have slots := (run_sound earlier rest passed known).slots
    omega
  · rintro e older before bucket blocked rfl earlier known here acquired
    obtain ⟨again, same, run', found, free, _⟩ := granted_cases run acquired
    cases run'.deterministic earlier
    rw [known] at found
    cases found
    exact le_of_blockedAt free here
  · rintro newer e older a untilTime actor reason requestId now t rfl called answered
    exact block_bound run regular called answered t

/-- Regularity read off the calls of a run, oldest first. -/
theorem Regular.of_calls {origin : String} {history : List Event} {calls : List Call}
    (made : history.map Entry.call = calls.reverse)
    (clock : calls.Pairwise fun older newer => older.now ≤ newer.now)
    (each : ∀ call ∈ calls, call.regular origin C R K) : Regular origin C R K history where
  clock := by
    have reversed := List.pairwise_reverse.mpr clock
    rw [← made, List.pairwise_map] at reversed
    exact reversed
  calls e member := by
    apply each
    rw [← List.mem_reverse, ← made]
    exact List.mem_map_of_mem member

namespace Sample

/-- Two permits at once, a third after a block of ten seconds. -/
def calls : List Call :=
  [.ensureBucket "o" 2 1 2 0,
    .acquirePermit "o" "worker-1" 60 none 7 0,
    .acquirePermit "o" "worker-2" 60 none 8 0,
    .blockOrigin "o" (seconds 11) "fetch" "429" none (seconds 1),
    .expirePermits none (seconds 70),
    .acquirePermit "o" "worker-1" 60 none 9 (seconds 71)]

end Sample

theorem limiter_safety_sample :
    grants "o" (fun _ => true) ((machine fun _ => 0).replay .empty Sample.calls).1 = 3 ∧
    ∀ s t, s ≤ t → (grants "o" (fun now => decide (s ≤ now ∧ now ≤ t))
        ((machine fun _ => 0).replay .empty Sample.calls).1 : ℚ) ≤
      2 + 1 * (totalSeconds t - totalSeconds s) := by
  have named : numeric 4 2 = 2 ∧ numeric 6 1 = 1 := by norm_num [numeric, round_eq]
  have regular : Regular "o" 2 1 2 ((machine fun _ => 0).replay .empty Sample.calls).1 := by
    apply Regular.of_calls ((machine fun _ => 0).calls_replay .empty Sample.calls) (by decide)
    simp [Sample.calls, Call.regular, named, seconds]
  constructor
  · decide +kernel
  · exact (limiter_safety (by norm_num) (by norm_num)
      ((machine fun _ => 0).run_replay .empty Sample.calls) regular).2.2.1

end Collector.Persistence.Limiter
