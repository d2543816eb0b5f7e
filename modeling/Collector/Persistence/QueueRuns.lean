import Collector.Persistence.LeaseRuns
import Collector.Persistence.QueueEffect

/-!
The queue over whole runs: any number of workers, recovery ticks and operators, in any order,
starting from an empty database. Claims and reports are read off the recorded calls.
-/

namespace Collector.Persistence.Queue
open Collector.Lib Collector.Lib.Lease

/-- The worker to whom an entry handed the job. -/
def claimedBy (entry : Event) (id : Uuid) : Option String :=
  match entry with
  | ⟨.claim _ worker _ _ _ _, .ok (.jobs jobs)⟩ =>
    if id ∈ jobs.map CrawlJob.jobId then some worker else none
  | _ => none

/-- The worker whose report on the job took effect. -/
def reportedBy (entry : Event) (id : Uuid) : Option String :=
  match entry with
  | ⟨.heartbeat jobId owner _ _, .ok (.expires _)⟩ | ⟨.complete jobId owner _, .ok _⟩
  | ⟨.retry jobId owner _ _ _ _ _, .ok (.job _)⟩ | ⟨.release jobId owner _ _, .ok _⟩
  | ⟨.quarantine jobId (some owner) _ _ _ _ _ _, .ok _⟩ => if id = jobId then some owner else none
  | _ => none

def released (entry : Event) (id : Uuid) : Bool :=
  match entry with
  | ⟨.release jobId _ _ _, .ok _⟩ => decide (id = jobId)
  | _ => false

theorem claimer_eq_claimedBy (entry : Event) (id : Uuid) :
    leaseQueue.claimer entry id = claimedBy entry id := by
  obtain ⟨call, outcome⟩ := entry
  simp only [LeaseQueue.claimer, leaseQueue]
  fun_cases act ⟨call, outcome⟩ id <;> simp_all [claimedBy, Act.claimer]

theorem refunded_eq_released (entry : Event) (id : Uuid) :
    leaseQueue.refunded entry id = released entry id := by
  obtain ⟨call, outcome⟩ := entry
  simp only [LeaseQueue.refunded, leaseQueue]
  fun_cases act ⟨call, outcome⟩ id <;> simp_all [released, Act.isRefund]

theorem reporter_eq_reportedBy (entry : Event) (id : Uuid) :
    leaseQueue.reporter entry id = reportedBy entry id := by
  obtain ⟨call, outcome⟩ := entry
  simp only [LeaseQueue.reporter, leaseQueue]
  fun_cases act ⟨call, outcome⟩ id <;> simp_all [reportedBy, Act.reporter]

theorem vacant_empty (id : Uuid) : leaseQueue.row Db.empty id = none := rfl

/-- A finished job is never written again. -/
theorem exec_terminal {db next : Db} {call : Call} {a : Answer}
    (answered : machine.exec call db = .ok (a, next)) {id : Uuid} {job : CrawlJob}
    (known : db.jobs.find? id = some job) (terminal : job.status.terminal = true) :
    next.jobs.find? id = some job := by
  obtain ⟨letters, effect, _⟩ := exec_effect answered id
  rw [known] at effect
  generalize act ⟨call, .ok a⟩ id = performed, next.jobs.find? id = after at effect ⊢
  cases effect with
  | kept => rfl
  | moved advances key unfinished =>
    rw [terminal] at unfinished
    cases unfinished

theorem run_terminal {db later : Db} {history : List Event} (run : machine.Run db history later)
    {id : Uuid} {job : CrawlJob} (known : db.jobs.find? id = some job)
    (terminal : job.status.terminal = true) : later.jobs.find? id = some job :=
  run.invariant (P := fun db => db.jobs.find? id = some job) known
    fun _ _ _ _ held answered => exec_terminal answered held terminal

/-- One dead letter for a quarantined job, none for any other. -/
def DeadLettered (db : Db) : Prop :=
  ∀ id, lettersOf db id =
    if (db.jobs.find? id).any (fun job => job.status = .quarantined) then 1 else 0

theorem exec_deadLettered {db next : Db} {call : Call} {a : Answer} (counted : DeadLettered db)
    (answered : machine.exec call db = .ok (a, next)) : DeadLettered next := by
  intro id
  obtain ⟨letters, effect, count⟩ := exec_effect answered id
  rw [count, counted id]
  generalize db.jobs.find? id = before, act ⟨call, .ok a⟩ id = performed,
    next.jobs.find? id = after at effect ⊢
  cases effect with
  | absent => rfl
  | created => rfl
  | kept => rfl
  | @moved job _ _ advances key unfinished =>
    have live : job.status ≠ .quarantined := by
      intro quarantined
      rw [quarantined] at unfinished
      cases unfinished
    simp [live]

/-- An idempotency key names at most one job. -/
def KeyUnique (db : Db) : Prop :=
  ∀ i j a b, db.jobs.find? i = some a → db.jobs.find? j = some b →
    a.idempotencyKey = b.idempotencyKey → i = j

/-- Where a job with a given key comes from: it was there, or this call inserted it while no
job had the key. -/
theorem exec_key {db next : Db} {call : Call} {a : Answer}
    (answered : machine.exec call db = .ok (a, next)) {id : Uuid} {job : CrawlJob}
    (known : next.jobs.find? id = some job) :
    (∃ old, db.jobs.find? id = some old ∧ old.idempotencyKey = job.idempotencyKey) ∨
      ∃ new draw now, call = .enqueue new draw now ∧ id = newEntityId db.jobs.keys draw ∧
        byIdempotencyKey db job.idempotencyKey = none := by
  obtain ⟨letters, effect, _⟩ := exec_effect answered id
  rw [known] at effect
  generalize db.jobs.find? id = before, act ⟨call, .ok a⟩ id = performed at effect ⊢
  cases effect with
  | created new draw now called issued unused => exact .inr ⟨new, draw, now, called, issued, unused⟩
  | kept => exact .inl ⟨job, rfl, rfl⟩
  | @moved old _ _ advances key => exact .inl ⟨old, rfl, key.symm⟩

private theorem used_key {db : Db} {id : Uuid} {job : CrawlJob} {idempotencyKey : String}
    (known : db.jobs.find? id = some job) (same : job.idempotencyKey = idempotencyKey) :
    byIdempotencyKey db idempotencyKey ≠ none := by
  intro unused
  have present := ((db.jobs.find?_eq_some _ _).mp known).1
  simpa [same] using List.find?_eq_none.mp unused job present

theorem exec_keyUnique {db next : Db} {call : Call} {a : Answer} (unique : KeyUnique db)
    (answered : machine.exec call db = .ok (a, next)) : KeyUnique next := by
  intro i j x y first second same
  rcases exec_key answered first with ⟨old, known, key⟩ | ⟨new, draw, now, called, issued, unused⟩
  · rcases exec_key answered second with ⟨old', known', key'⟩ | ⟨_, _, _, _, _, unused⟩
    · exact unique i j old old' known known' (key.trans (same.trans key'.symm))
    · exact absurd unused (used_key known (key.trans same))
  · rcases exec_key answered second with ⟨old', known', key'⟩ | ⟨_, _, _, called', issued', _⟩
    · exact absurd unused (used_key known' (key'.trans same.symm))
    · rw [called] at called'
      cases called'
      rw [issued, issued']

/-- **Accounting.** In every run every job has a complete lease exactly while it is leased, an
attempt counter equal to its claims less its releases, one dead letter exactly when it is
quarantined, a final state once it is finished, and an idempotency key of its own. -/
theorem queue_accounting {history : List Event} {db : Db}
    (run : machine.Run Db.empty history db) {id : Uuid} {job : CrawlJob}
    (known : db.jobs.find? id = some job) :
    (job.status = .leased ↔ job.leaseOwner.isSome ∧ job.leaseExpiresAt.isSome) ∧
      job.attempt = ((history.countP fun entry => (claimedBy entry id).isSome : Nat) : Int) -
        (history.countP fun entry => released entry id : Nat) ∧
      (job.status = .leased → 1 ≤ job.attempt ∧ max (job.attempt - 1) 0 = job.attempt - 1) ∧
      (job.status = .succeeded ∨ job.status = .quarantined → ∀ newer later,
        machine.Run db newer later → later.jobs.find? id = some job) ∧
      lettersOf db id = (if job.status = .quarantined then 1 else 0) ∧
      ∀ other copy, db.jobs.find? other = some copy →
        copy.idempotencyKey = job.idempotencyKey → other = id := by
  have columns : leaseQueue.row db id = some job.columns := by
    simp only [leaseQueue, known, Option.map_some]
  obtain ⟨lease, count, positive⟩ := leaseQueue.accounting vacant_empty run id _ columns
  simp only [claimer_eq_claimedBy, refunded_eq_released] at count
  have lettered : DeadLettered db := run.invariant (P := DeadLettered) (fun _ => rfl)
    fun _ _ _ _ held answered => exec_deadLettered held answered
  have unique : KeyUnique db := run.invariant (P := KeyUnique)
    (fun _ _ _ _ known => by cases known)
    fun _ _ _ _ held answered => exec_keyUnique held answered
  refine ⟨lease, count, ?_, ?_, ?_, ?_⟩
  · intro leased
    have first : 1 ≤ job.attempt := positive leased
    exact ⟨first, by omega⟩
  · intro finished newer later continued
    refine run_terminal continued known ?_
    rcases finished with status | status <;> rw [status] <;> rfl
  · simpa [known] using lettered id
  · exact fun other copy present same => unique other id copy job present known same

/-- A job with one attempt whose worker dies, is recovered and is handed out again. -/
def poison : List Call := [
  .enqueue { jobType := "fetch", idempotencyKey := "k", maxAttempts := 1 } 7 0,
  .claim ["fetch"] "a" 10 1 [] 0,
  .recoverExpiredLeases 1000 [] (seconds 10),
  .claim ["fetch"] "a" 10 1 [] (seconds 11)]

theorem queue_accounting_poison :
    ∃ history db job, machine.Run Db.empty history db ∧ db.jobs.find? 7 = some job ∧
      job.status = .leased ∧ 1 ≤ job.attempt ∧ max (job.attempt - 1) 0 = job.attempt - 1 := by
  have run := machine.run_replay Db.empty poison
  have known := (Option.some_get
    (show ((machine.replay Db.empty poison).2.jobs.find? 7).isSome by decide)).symm
  exact ⟨_, _, _, run, known, by decide, (queue_accounting run known).2.2.1 (by decide)⟩

section Exclusivity

/-- The lease a worker last set on a job by a claim or a heartbeat, unless that worker has
completed, retried, released or quarantined it or an operator has quarantined it since. -/
def currentLease (worker : String) (id : Uuid) : List Event → Option Time
  | [] => none
  | ⟨.claim _ claimant leaseSeconds _ _ now, .ok (.jobs jobs)⟩ :: older =>
    if id ∈ jobs.map CrawlJob.jobId ∧ claimant = worker then some (now + seconds leaseSeconds)
    else currentLease worker id older
  | ⟨.heartbeat jobId owner _ _, .ok (.expires instant)⟩ :: older =>
    if id = jobId ∧ owner = worker then some instant else currentLease worker id older
  | ⟨.complete jobId owner _, .ok _⟩ :: older
  | ⟨.retry jobId owner _ _ _ _ _, .ok (.job _)⟩ :: older
  | ⟨.release jobId owner _ _, .ok _⟩ :: older
  | ⟨.quarantine jobId (some owner) _ _ _ _ _ _, .ok _⟩ :: older =>
    if id = jobId ∧ owner = worker then none else currentLease worker id older
  | ⟨.quarantine jobId none _ _ _ _ _ _, .ok _⟩ :: older =>
    if id = jobId then none else currentLease worker id older
  | _ :: older => currentLease worker id older

theorem lease_eq_currentLease (worker : String) (id : Uuid) (history : List Event) :
    lease worker (leaseQueue.acts history id) = currentLease worker id history := by
  induction history with
  | nil => rfl
  | cons entry history ih =>
    obtain ⟨call, outcome⟩ := entry
    simp only [LeaseQueue.acts, leaseQueue, List.filterMap_cons] at ih ⊢
    fun_cases act ⟨call, outcome⟩ id <;> simp_all [currentLease, lease]

/-- The `now` of committed transactions never decreases. -/
def Clocked (history : List Event) : Prop :=
  (history.filter fun entry => entry.outcome.isOk).Pairwise
    fun newer older => older.call.now ≤ newer.call.now

theorem Clocked.head {entry old : Event} {history : List Event} (clocked : Clocked (entry :: history))
    (answered : entry.outcome.isOk = true) (member : old ∈ history)
    (committed : old.outcome.isOk = true) : old.call.now ≤ entry.call.now := by
  simp only [Clocked, List.filter_cons, answered, if_true, List.pairwise_cons] at clocked
  exact clocked.1 old (List.mem_filter.mpr ⟨member, committed⟩)

theorem expire_act {entry : Event} {id : Uuid} {now : Time}
    (expired : act entry id = some (.expire now)) :
    ∃ limit skip ids, entry = ⟨.recoverExpiredLeases limit skip now, .ok (.ids ids)⟩ ∧ id ∈ ids := by
  obtain ⟨call, outcome⟩ := entry
  revert expired
  fun_cases act ⟨call, outcome⟩ id <;> simp_all

theorem act_answered {entry : Event} {id : Uuid} {performed : Act String Time}
    (acted : act entry id = some performed) : entry.outcome.isOk = true := by
  obtain ⟨call, outcome⟩ := entry
  cases outcome with
  | error e =>
    have silent : act ⟨call, .error e⟩ id = none := leaseQueue.raised call e id
    rw [silent] at acted
    cases acted
  | ok a => rfl

/-- **Exclusivity.** After a worker set a lease on a job and has not given the job up, no other
worker claims it or reports on it before that lease expires. -/
theorem lease_exclusivity {entry : Event} {history : List Event} {db : Db}
    (run : machine.Run Db.empty (entry :: history) db) (clocked : Clocked (entry :: history))
    {id : Uuid} {worker other : String} {expires : Time}
    (kept : currentLease worker id history = some expires)
    (acted : claimedBy entry id = some other ∨ reportedBy entry id = some other)
    (distinct : other ≠ worker) : expires ≤ entry.call.now := by
  have actor : leaseQueue.actor entry id = some other := by
    rw [← claimer_eq_claimedBy, ← reporter_eq_reportedBy] at acted
    exact LeaseQueue.actor_of_claimer_or_reporter acted
  rw [← lease_eq_currentLease] at kept
  refine leaseQueue.exclusive vacant_empty run ?_ kept actor distinct
  intro past expired
  obtain ⟨old, member, performed⟩ := List.mem_filterMap.mp expired
  obtain ⟨limit, skip, ids, rfl, _⟩ := expire_act performed
  obtain ⟨act, acting, _⟩ := Option.bind_eq_some_iff.mp actor
  exact clocked.head (act_answered acting) member rfl

/-- A second worker takes a job over at the instant the first one's lease ends. -/
def takeover : List Call := [
  .enqueue { jobType := "fetch", idempotencyKey := "k" } 7 0,
  .claim ["fetch"] "a" 10 1 [] 0,
  .recoverExpiredLeases 1000 [] (seconds 10),
  .claim ["fetch"] "b" 10 1 [] (seconds 10)]

theorem lease_exclusivity_takeover :
    ∃ entry history db, machine.Run Db.empty (entry :: history) db ∧
      currentLease "a" 7 history = some (seconds 10) ∧ claimedBy entry 7 = some "b" ∧
      seconds 10 ≤ entry.call.now := by
  have run := machine.run_replay Db.empty takeover
  have clocked : Clocked (machine.replay Db.empty takeover).1 := by
    unfold Clocked
    decide
  have kept : currentLease "a" 7 (machine.replay Db.empty takeover).1.tail = some (seconds 10) := by
    decide
  have taken : claimedBy ((machine.replay Db.empty takeover).1.head nofun) 7 = some "b" := by
    decide
  exact ⟨_, _, _, run, kept, taken, lease_exclusivity run clocked kept (.inl taken) (by decide)⟩

end Exclusivity

section Limit

/-- Every expired lease that recovery takes has an attempt left. -/
def RecoversWithinLimit (history : List Event) : Prop :=
  ∀ newer older middle limit skip now outcome,
    history = newer ++ ⟨.recoverExpiredLeases limit skip now, outcome⟩ :: older →
    machine.Run Db.empty older middle →
    ∀ job ∈ expiredLeases middle limit skip now, job.attempt < job.maxAttempts

theorem exec_limit {db next : Db} {call : Call} {a : Answer}
    (answered : machine.exec call db = .ok (a, next)) (id : Uuid) (columns : LeaseColumns)
    (absent : leaseQueue.row db id = none) (known : leaseQueue.row next id = some columns) :
    1 ≤ columns.maxAttempts := by
  obtain ⟨letters, effect, _⟩ := exec_effect answered id
  simp only [leaseQueue, Option.map_eq_none_iff, Option.map_eq_some_iff] at absent known
  obtain ⟨job, found, rfl⟩ := known
  rw [absent, found] at effect
  generalize act ⟨call, .ok a⟩ id = performed at effect
  cases effect with
  | created new draw now called issued unused limit => exact limit

/-- While recovery only returns jobs with an attempt left, no job is claimed more often, less
its releases, than its limit allows. -/
theorem attempts_within_limit {history : List Event} {db : Db}
    (run : machine.Run Db.empty history db) (within : RecoversWithinLimit history)
    {id : Uuid} {job : CrawlJob} (known : db.jobs.find? id = some job) :
    job.attempt ≤ job.maxAttempts ∧
      ((history.countP fun entry => (claimedBy entry id).isSome : Nat) : Int) -
        (history.countP fun entry => released entry id : Nat) ≤ job.maxAttempts := by
  have columns : leaseQueue.row db id = some job.columns := by
    simp only [leaseQueue, known, Option.map_some]
  have bound : job.attempt ≤ job.maxAttempts := by
    refine leaseQueue.budget vacant_empty run (fun _ _ _ _ => exec_limit) ?_ id _ columns
    intro newer older middle next call a cut before answered id now columns expired found
    obtain ⟨limit, skip, ids, same, member⟩ := expire_act expired
    cases same
    obtain ⟨_, done, same⟩ := answer_eq_ok.mp answered
    cases same
    unfold recoverExpiredLeases at done
    simp only [Except.bind_eq_ok, ensure_eq_ok, pure, Except.pure, Except.ok.injEq,
      Prod.mk.injEq] at done
    obtain ⟨_, _, rfl, _⟩ := done
    obtain ⟨job, picked, rfl⟩ := List.mem_map.mp member
    have present := (Table.mem_of_mem_select picked).1
    simp only [leaseQueue, middle.jobs.find?_of_mem present, Option.map_some,
      Option.some.injEq] at found
    subst found
    exact within newer older middle limit skip now _ cut before job picked
  have count := (leaseQueue.accounting vacant_empty run id _ columns).2.1
  simp only [claimer_eq_claimedBy, refunded_eq_released] at count
  exact ⟨bound, count ▸ bound⟩

theorem attempts_within_limit_takeover :
    RecoversWithinLimit (machine.replay Db.empty takeover).1 ∧
      ∃ job, (machine.replay Db.empty takeover).2.jobs.find? 7 = some job ∧
        job.attempt ≤ job.maxAttempts := by
  have run := machine.run_replay Db.empty takeover
  have known := (Option.some_get
    (show ((machine.replay Db.empty takeover).2.jobs.find? 7).isSome by decide)).symm
  have within : RecoversWithinLimit (machine.replay Db.empty takeover).1 := by
    intro newer older middle limit skip now outcome cut before
    rcases newer with _ | ⟨_, _ | ⟨_, _ | ⟨_, _ | ⟨_, newer⟩⟩⟩⟩ <;>
      simp [Machine.replay, takeover] at cut
    obtain ⟨_, ⟨⟨rfl, rfl, rfl⟩, _⟩, rfl⟩ := cut
    rw [before.deterministic (machine.run_replay Db.empty (takeover.take 2))]
    decide
  exact ⟨within, _, known, (attempts_within_limit run within known).1⟩

/-- Recovery returns a job on its last attempt to the queue, and the next claim exceeds the
limit. -/
theorem poison_exceeds_limit :
    ∃ history db job, machine.Run Db.empty history db ∧ db.jobs.find? 7 = some job ∧
      job.maxAttempts < job.attempt := by
  have known := (Option.some_get
    (show ((machine.replay Db.empty poison).2.jobs.find? 7).isSome by decide)).symm
  exact ⟨_, _, _, machine.run_replay Db.empty poison, known, by decide⟩

end Limit

end Collector.Persistence.Queue
