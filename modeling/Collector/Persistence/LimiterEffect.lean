import Collector.Persistence.Limiter

/-!
What an answered call does to the bucket of one origin. Every later result about the limiter is
read off these cases.
-/

namespace Collector.Persistence.Limiter
open Collector.Lib

/-- The call is an acquire on the origin and its answer is a permit. -/
def granted (origin : String) : Call → Answer → Bool
  | .acquirePermit here _ _ _ _ _, .decision decision => decide (here = origin) && decision.granted
  | _, _ => false

/-- The call is a block of the origin. -/
def blocking (origin : String) : Call → Bool
  | .blockOrigin here _ _ _ _ _ => decide (here = origin)
  | _ => false

theorem writeBucket_eq {db next : Db} {bucket : OriginRateBucket}
    (written : db.writeBucket bucket = .ok next) :
    next = { db with buckets := db.buckets.put bucket } := by
  obtain ⟨_, _, stored⟩ := Except.bind_eq_ok.mp written
  cases stored
  rfl

theorem acquirePermit_cases {wait : Wait} {db next : Db} {origin owner : String} {lease : Int}
    {job : Option Uuid} {draw : Uuid} {now : Time} {decision : PermitDecision}
    (answered : acquirePermit wait db origin owner lease job draw now = .ok (decision, next)) :
    ∃ bucket, db.buckets.find? origin = some bucket ∧
      ((bucket.blockedAt now = true ∧ decision.granted = false ∧ next = db) ∨
       (bucket.blockedAt now = false ∧ decision.granted = false ∧
          next = { db with buckets := db.buckets.put (bucket.refill now) }) ∨
       (bucket.blockedAt now = false ∧ decision.granted = true ∧ 1 ≤ lease ∧
          1 ≤ (bucket.refill now).availableTokens ∧
          ((db.livePermits origin now).length : Int) < bucket.maxConcurrency ∧
          next = { db with
            buckets := db.buckets.put (bucket.refill now).spend
            permits := db.permits.insert
              (newPermit (newEntityId db.permits.keys draw) origin owner job lease now) })) := by
  unfold acquirePermit at answered
  obtain ⟨_, leased, answered⟩ := Except.bind_eq_ok.mp answered
  rw [ensure_eq_ok, decide_eq_true_eq] at leased
  obtain ⟨bucket, found, answered⟩ := Except.bind_eq_ok.mp answered
  rw [require_eq_ok] at found
  refine ⟨bucket, found, ?_⟩
  split at answered
  · rename_i blocked
    cases answered
    exact .inl ⟨blocked, rfl, rfl⟩
  · rename_i free
    rw [Bool.not_eq_true] at free
    right
    dsimp only at answered
    split at answered
    · obtain ⟨after, written, answered⟩ := Except.bind_eq_ok.mp answered
      cases answered
      exact .inl ⟨free, rfl, writeBucket_eq written⟩
    · rename_i enough
      split at answered
      · obtain ⟨after, written, answered⟩ := Except.bind_eq_ok.mp answered
        cases answered
        exact .inl ⟨free, rfl, writeBucket_eq written⟩
      · rename_i slot
        obtain ⟨_, _, answered⟩ := Except.bind_eq_ok.mp answered
        obtain ⟨after, written, answered⟩ := Except.bind_eq_ok.mp answered
        cases answered
        rw [writeBucket_eq written]
        exact .inr ⟨free, rfl, leased, not_lt.mp enough, not_le.mp slot, rfl⟩

theorem blockOrigin_cases {db next : Db} {origin actor reason : String} {untilTime now : Time}
    {requestId : Option String} {result : OriginRateBucket}
    (answered : blockOrigin db origin untilTime actor reason requestId now = .ok (result, next)) :
    ∃ bucket, db.buckets.find? origin = some bucket ∧
      ((bucket.extendedBy untilTime = false ∧ next = db) ∨
       (bucket.extendedBy untilTime = true ∧ ∃ entry, next = { db with
          buckets := db.buckets.put (bucket.block untilTime reason now)
          audit := db.audit ++ [entry] })) := by
  unfold blockOrigin at answered
  obtain ⟨_, _, answered⟩ := Except.bind_eq_ok.mp answered
  obtain ⟨bucket, found, answered⟩ := Except.bind_eq_ok.mp answered
  rw [require_eq_ok] at found
  refine ⟨bucket, found, ?_⟩
  split at answered
  · rename_i extends_
    obtain ⟨after, written, answered⟩ := Except.bind_eq_ok.mp answered
    obtain ⟨_, _, answered⟩ := Except.bind_eq_ok.mp answered
    cases answered
    rw [writeBucket_eq written]
    exact .inr ⟨extends_, _, rfl⟩
  · rename_i longer
    cases answered
    exact .inl ⟨Bool.not_eq_true _ ▸ longer, rfl⟩

theorem ensureBucket_cases {db next : Db} {origin : String} {capacity refill : ℚ}
    {maxConcurrency : Int} {now : Time} {result : OriginRateBucket}
    (answered : ensureBucket db origin capacity refill maxConcurrency now = .ok (result, next)) :
    result.admissible = true ∧ result.origin = origin ∧
      result.capacityTokens = numeric 4 capacity ∧ result.refillPerSecond = numeric 6 refill ∧
      result.maxConcurrency = maxConcurrency ∧
      ((db.buckets.find? origin = none ∧ next = { db with buckets := db.buckets.insert result } ∧
          result.availableTokens = numeric 4 capacity ∧ result.lastRefillAt = now ∧
          result.blockedUntil = none) ∨
       (∃ bucket, db.buckets.find? origin = some bucket ∧
          next = { db with buckets := db.buckets.put result } ∧
          result.availableTokens = numeric 4 (min bucket.availableTokens capacity) ∧
          result.lastRefillAt = bucket.lastRefillAt ∧
          result.blockedUntil = bucket.blockedUntil)) := by
  unfold ensureBucket at answered
  split at answered
  · rename_i absent
    obtain ⟨_, admissible, answered⟩ := Except.bind_eq_ok.mp answered
    cases answered
    rw [ensure_eq_ok] at admissible
    exact ⟨admissible, rfl, rfl, rfl, rfl, .inl ⟨absent, rfl, rfl, rfl, rfl⟩⟩
  · rename_i bucket found
    obtain ⟨after, written, answered⟩ := Except.bind_eq_ok.mp answered
    cases answered
    obtain ⟨_, admissible, stored⟩ := Except.bind_eq_ok.mp written
    rw [ensure_eq_ok] at admissible
    cases stored
    have named := ((db.buckets.find?_eq_some _ _).mp found).2
    exact ⟨admissible, named, rfl, rfl, rfl, .inr ⟨bucket, found, rfl, rfl, rfl, rfl⟩⟩

/-- What an answered call did to the bucket of `origin`. -/
inductive Effect (origin : String) (call : Call) (a : Answer) (db next : Db) : Prop where
  /-- A call on another origin or on permits only, or an acquire that a block turned away. -/
  | untouched (same : next.buckets.find? origin = db.buckets.find? origin)
      (silent : granted origin call a = false) (other : blocking origin call = false)
  | created (bucket : OriginRateBucket) (capacity refill : ℚ) (maxConcurrency : Int) (now : Time)
      (called : call = .ensureBucket origin capacity refill maxConcurrency now)
      (absent : db.buckets.find? origin = none) (found : next.buckets.find? origin = some bucket)
      (admissible : bucket.admissible = true)
      (configured : bucket.capacityTokens = numeric 4 capacity ∧
        bucket.refillPerSecond = numeric 6 refill ∧ bucket.maxConcurrency = maxConcurrency)
      (full : bucket.availableTokens = numeric 4 capacity) (since : bucket.lastRefillAt = now)
      (free : bucket.blockedUntil = none)
  | configured (old bucket : OriginRateBucket) (capacity refill : ℚ) (maxConcurrency : Int)
      (now : Time) (called : call = .ensureBucket origin capacity refill maxConcurrency now)
      (known : db.buckets.find? origin = some old) (found : next.buckets.find? origin = some bucket)
      (admissible : bucket.admissible = true)
      (configured : bucket.capacityTokens = numeric 4 capacity ∧
        bucket.refillPerSecond = numeric 6 refill ∧ bucket.maxConcurrency = maxConcurrency)
      (capped : bucket.availableTokens = numeric 4 (min old.availableTokens capacity))
      (since : bucket.lastRefillAt = old.lastRefillAt)
      (still : bucket.blockedUntil = old.blockedUntil)
  | refilled (bucket : OriginRateBucket) (now : Time) (called : call.now = now)
      (known : db.buckets.find? origin = some bucket) (free : bucket.blockedAt now = false)
      (found : next.buckets.find? origin = some (bucket.refill now))
      (silent : granted origin call a = false) (other : blocking origin call = false)
  | spent (bucket : OriginRateBucket) (now : Time) (called : call.now = now)
      (known : db.buckets.find? origin = some bucket) (free : bucket.blockedAt now = false)
      (enough : 1 ≤ (bucket.refill now).availableTokens)
      (slot : ((db.livePermits origin now).length : Int) < bucket.maxConcurrency)
      (found : next.buckets.find? origin = some (bucket.refill now).spend)
      (live : (next.livePermits origin now).length = (db.livePermits origin now).length + 1)
      (acquired : granted origin call a = true) (other : blocking origin call = false)
  | blocked (bucket : OriginRateBucket) (untilTime : Time) (actor reason : String)
      (requestId : Option String) (now : Time)
      (called : call = .blockOrigin origin untilTime actor reason requestId now)
      (known : db.buckets.find? origin = some bucket)
      (longer : bucket.extendedBy untilTime = true)
      (found : next.buckets.find? origin = some (bucket.block untilTime reason now))
  | kept (bucket : OriginRateBucket) (untilTime : Time) (actor reason : String)
      (requestId : Option String) (now : Time)
      (called : call = .blockOrigin origin untilTime actor reason requestId now)
      (known : db.buckets.find? origin = some bucket)
      (shorter : bucket.extendedBy untilTime = false) (same : next = db)

theorem find?_putBucket {db : Db} (bucket : OriginRateBucket) {old : OriginRateBucket} {here : String}
    (known : db.buckets.find? here = some old) (named : bucket.origin = old.origin) (origin : String) :
    (db.buckets.put bucket).find? origin =
      if origin = here then some bucket else db.buckets.find? origin := by
  have key : bucket.origin = here := named.trans ((db.buckets.find?_eq_some _ _).mp known).2
  have present : db.buckets.find? bucket.origin = some old := key ▸ known
  rw [Table.find?_put db.buckets bucket present, key]

/-- A new permit takes one more slot: its lease ends after it is handed out. -/
theorem livePermits_insert {db : Db} {buckets : Table OriginRateBucket.origin}
    {origin owner : String} {job : Option Uuid} {draw : Uuid} {lease : Int} {now : Time}
    (leased : 1 ≤ lease) :
    (Db.livePermits { db with
        buckets := buckets
        permits := db.permits.insert
          (newPermit (newEntityId db.permits.keys draw) origin owner job lease now) }
      origin now).length = (db.livePermits origin now).length + 1 := by
  have fresh : (newPermit (newEntityId db.permits.keys draw) origin owner job lease now).permitId ∉
      db.permits.keys := newEntityId_not_mem _ _
  have later : now < now + seconds lease := by
    have positive : 0 < lease * 1000000 := by omega
    exact Int.lt_add_of_pos_right now positive
  unfold Db.livePermits
  rw [Table.rows_insert _ _ fresh, List.filter_append, List.length_append]
  simp [newPermit, later]

theorem acquirePermit_effect {wait : Wait} {db next : Db} {here owner : String} {lease : Int}
    {job : Option Uuid} {draw : Uuid} {now : Time} {decision : PermitDecision} (origin : String)
    (answered : acquirePermit wait db here owner lease job draw now = .ok (decision, next)) :
    Effect origin (.acquirePermit here owner lease job draw now) (.decision decision) db next := by
  obtain ⟨bucket, known, outcome⟩ := acquirePermit_cases answered
  by_cases mine : here = origin
  · cases mine
    rcases outcome with ⟨_, refused, rfl⟩ | ⟨free, refused, rfl⟩ |
      ⟨free, accepted, leased, enough, slot, rfl⟩
    · exact .untouched rfl (by simp [granted, refused]) rfl
    · refine .refilled bucket now rfl known free ?_ (by simp [granted, refused]) rfl
      exact (find?_putBucket (bucket.refill now) known rfl here).trans (if_pos rfl)
    · refine .spent bucket now rfl known free enough slot ?_ (livePermits_insert leased)
        (by simp [granted, accepted]) rfl
      exact (find?_putBucket (bucket.refill now).spend known rfl here).trans (if_pos rfl)
  · have elsewhere : next.buckets.find? origin = db.buckets.find? origin := by
      rcases outcome with ⟨_, _, rfl⟩ | ⟨_, _, rfl⟩ | ⟨_, _, _, _, _, rfl⟩
      · rfl
      · exact (find?_putBucket (bucket.refill now) known rfl origin).trans (if_neg (Ne.symm mine))
      · exact (find?_putBucket (bucket.refill now).spend known rfl origin).trans (if_neg (Ne.symm mine))
    exact .untouched elsewhere (by simp [granted, mine]) rfl

theorem ensureBucket_effect {db next : Db} {here : String} {capacity refill : ℚ}
    {maxConcurrency : Int} {now : Time} {result : OriginRateBucket} (origin : String)
    (answered : ensureBucket db here capacity refill maxConcurrency now = .ok (result, next)) :
    Effect origin (.ensureBucket here capacity refill maxConcurrency now) (.bucket result) db next := by
  obtain ⟨admissible, named, capacity', refill', slots, outcome⟩ := ensureBucket_cases answered
  have placed : next.buckets.find? origin =
      if origin = here then some result else db.buckets.find? origin := by
    rcases outcome with ⟨absent, rfl, _⟩ | ⟨bucket, known, rfl, _⟩
    · have fresh : result.origin ∉ db.buckets.keys := by
        rw [named, ← Table.find?_eq_none]
        exact absent
      show (db.buckets.insert result).find? origin = _
      rw [Table.find?_insert _ _ fresh, named]
      simp only [eq_comm]
    · have same := ((db.buckets.find?_eq_some _ _).mp known).2
      exact find?_putBucket result known (named.trans same.symm) origin
  by_cases mine : origin = here
  · cases mine
    rw [if_pos rfl] at placed
    rcases outcome with ⟨absent, _, full, since, free⟩ | ⟨old, known, _, capped, since, still⟩
    · exact .created result capacity refill maxConcurrency now rfl absent placed admissible
        ⟨capacity', refill', slots⟩ full since free
    · exact .configured old result capacity refill maxConcurrency now rfl known placed admissible
        ⟨capacity', refill', slots⟩ capped since still
  · rw [if_neg mine] at placed
    exact .untouched placed rfl rfl

theorem blockOrigin_effect {db next : Db} {here actor reason : String} {untilTime now : Time}
    {requestId : Option String} {result : OriginRateBucket} (origin : String)
    (answered : blockOrigin db here untilTime actor reason requestId now = .ok (result, next)) :
    Effect origin (.blockOrigin here untilTime actor reason requestId now) (.bucket result) db next := by
  obtain ⟨bucket, known, outcome⟩ := blockOrigin_cases answered
  by_cases mine : here = origin
  · cases mine
    rcases outcome with ⟨shorter, rfl⟩ | ⟨longer, entry, rfl⟩
    · exact .kept bucket untilTime actor reason requestId now rfl known shorter rfl
    · refine .blocked bucket untilTime actor reason requestId now rfl known longer ?_
      exact (find?_putBucket (bucket.block untilTime reason now) known rfl here).trans (if_pos rfl)
  · have elsewhere : next.buckets.find? origin = db.buckets.find? origin := by
      rcases outcome with ⟨_, rfl⟩ | ⟨_, entry, rfl⟩
      · rfl
      · exact (find?_putBucket (bucket.block untilTime reason now) known rfl origin).trans
          (if_neg (Ne.symm mine))
    exact .untouched elsewhere rfl (by simp [blocking, mine])

/-- Every answered call has one of the effects. -/
theorem exec_effect {wait : Wait} {db next : Db} {call : Call} {a : Answer} (origin : String)
    (answered : (machine wait).exec call db = .ok (a, next)) : Effect origin call a db next := by
  cases call with
  | ensureBucket here capacity refill maxConcurrency now =>
    obtain ⟨result, done, rfl⟩ := answer_eq_ok.mp answered
    exact ensureBucket_effect origin done
  | acquirePermit here owner lease job draw now =>
    obtain ⟨decision, done, rfl⟩ := answer_eq_ok.mp answered
    exact acquirePermit_effect origin done
  | releasePermit permitId owner now =>
    cases answered
    exact .untouched rfl rfl rfl
  | expirePermits here now =>
    cases answered
    exact .untouched rfl rfl rfl
  | blockOrigin here untilTime actor reason requestId now =>
    obtain ⟨result, done, rfl⟩ := answer_eq_ok.mp answered
    exact blockOrigin_effect origin done

end Collector.Persistence.Limiter
