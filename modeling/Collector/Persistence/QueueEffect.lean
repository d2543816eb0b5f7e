import Collector.Persistence.LeaseColumns
import Collector.Persistence.Queue

/-!
What an answered queue call does, said once and for one job at a time: which act it performs on
the job's lease and which dead letters it adds. Every invariant of the queue is read off here.
-/

namespace Collector.Persistence.Queue
open Collector.Lib Collector.Lib.Lease

abbrev Event := Entry Call Answer PersistenceError

def CrawlJob.columns (job : CrawlJob) : LeaseColumns :=
  ⟨job.status, job.leaseOwner, job.leaseExpiresAt, job.attempt, job.maxAttempts⟩

/-- The act of an entry on the lease of one job. -/
def act (entry : Event) (id : Uuid) : Option (Act String Time) :=
  match entry with
  | ⟨.claim _ worker leaseSeconds _ _ now, .ok (.jobs jobs)⟩ =>
    if id ∈ jobs.map CrawlJob.jobId then some (.claim worker (now + seconds leaseSeconds)) else none
  | ⟨.heartbeat jobId owner _ _, .ok (.expires instant)⟩ =>
    if id = jobId then some (.extend owner instant) else none
  | ⟨.complete jobId owner _, .ok _⟩ => if id = jobId then some (.finish owner) else none
  -- A retry on the last attempt quarantines, which the returned row shows.
  | ⟨.retry jobId owner _ _ _ _ _, .ok (.job job)⟩ =>
    if id = jobId then
      if job.status = .quarantined then some (.finish owner) else some (.retry owner)
    else none
  | ⟨.quarantine jobId (some owner) _ _ _ _ _ _, .ok _⟩ =>
    if id = jobId then some (.finish owner) else none
  | ⟨.quarantine jobId none _ _ _ _ _ _, .ok _⟩ => if id = jobId then some .revoke else none
  | ⟨.release jobId owner _ _, .ok _⟩ => if id = jobId then some (.refund owner) else none
  | ⟨.recoverExpiredLeases _ _ now, .ok (.ids ids)⟩ =>
    if id ∈ ids then some (.expire now) else none
  | _ => none

def lettersOf (db : Db) (id : Uuid) : Nat := db.deadLetters.countP fun letter => letter.jobId = id

/-- The effect on one job. The last index counts the dead letters added for it. -/
inductive JobEffect (db : Db) (call : Call) (id : Uuid) :
    Option CrawlJob → Option (Act String Time) → Option CrawlJob → Nat → Prop
  | absent : JobEffect db call id none none none 0
  | created (job : NewJob) (draw : Uuid) (now : Time) (called : call = .enqueue job draw now)
      (issued : id = newEntityId db.jobs.keys draw)
      (unused : byIdempotencyKey db job.idempotencyKey = none) (limit : 1 ≤ job.maxAttempts) :
      JobEffect db call id none none (some (job.row id now)) 0
  | kept (job : CrawlJob) : JobEffect db call id (some job) none (some job) 0
  | moved {job next : CrawlJob} {act : Act String Time}
      (advances : job.columns.Advances act next.columns)
      (key : next.idempotencyKey = job.idempotencyKey)
      (unfinished : job.status.terminal = false) :
      JobEffect db call id (some job) (some act) (some next)
        (if next.status = .quarantined then 1 else 0)

/-- One answered call, seen from one job. -/
def Effect (db next : Db) (call : Call) (answer : Answer) (id : Uuid) : Prop :=
  ∃ letters, JobEffect db call id (db.jobs.find? id) (act ⟨call, .ok answer⟩ id)
    (next.jobs.find? id) letters ∧ lettersOf next id = lettersOf db id + letters

theorem JobEffect.same {db : Db} {call : Call} {id : Uuid} (job : Option CrawlJob) :
    JobEffect db call id job none job 0 := by
  cases job with
  | none => exact .absent
  | some job => exact .kept job

theorem lockOwned_eq_ok {db : Db} {jobId : Uuid} {owner : String} {job : CrawlJob} :
    lockOwned db jobId owner = .ok job ↔
      db.jobs.find? jobId = some job ∧ job.status = .leased ∧ job.leaseOwner = some owner := by
  unfold lockOwned
  rw [require_eq_ok, Option.filter_eq_some_iff]
  simp [CrawlJob.owned]

theorem lockAny_eq_ok {db : Db} {jobId : Uuid} {job : CrawlJob} :
    lockAny db jobId = .ok job ↔ db.jobs.find? jobId = some job ∧ job.status.terminal = false := by
  unfold lockAny
  simp only [Except.bind_eq_ok, require_eq_ok, ensure_eq_ok, Bool.not_eq_true', pure, Except.pure,
    Except.ok.injEq]
  constructor
  · rintro ⟨row, found, _, unfinished, rfl⟩
    exact ⟨found, unfinished⟩
  · rintro ⟨found, unfinished⟩
    exact ⟨job, found, (), unfinished, rfl⟩

/-- A locked row written back replaces that row and nothing else. -/
theorem write_eq_ok {db next : Db} {old job row : CrawlJob}
    (wrote : db.write job = .ok (row, next)) (known : db.jobs.find? job.jobId = some old) :
    row = job ∧ next.deadLetters = db.deadLetters ∧
      ∀ id, next.jobs.find? id = if id = job.jobId then some job else db.jobs.find? id := by
  unfold Db.write at wrote
  simp only [Except.bind_eq_ok, ensure_eq_ok, pure, Except.pure, Except.ok.injEq,
    Prod.mk.injEq] at wrote
  obtain ⟨_, _, rfl, rfl⟩ := wrote
  exact ⟨rfl, rfl, db.jobs.find?_put _ known⟩

theorem quarantineLocked_eq_ok {db next : Db} {job row : CrawlJob} {reason : DeadLetterReason}
    {errorCode : String} {errorMessage : Option String} {now : Time}
    (known : db.jobs.find? job.jobId = some job)
    (done : quarantineLocked db job reason errorCode errorMessage now = .ok (row, next)) :
    row.status = .quarantined ∧ row.idempotencyKey = job.idempotencyKey ∧
      row.columns = ⟨.quarantined, none, none, job.attempt, job.maxAttempts⟩ ∧
      (∀ id, next.jobs.find? id = if id = job.jobId then some row else db.jobs.find? id) ∧
      ∀ id, lettersOf next id = lettersOf db id + if id = job.jobId then 1 else 0 := by
  unfold quarantineLocked at done
  simp only [Except.bind_eq_ok, pure, Except.pure, Except.ok.injEq, Prod.mk.injEq] at done
  obtain ⟨⟨written, middle⟩, wrote, rfl, rfl⟩ := done
  obtain ⟨rfl, letters, lookup⟩ := write_eq_ok wrote known
  refine ⟨rfl, rfl, rfl, lookup, ?_⟩
  intro id
  simp [lettersOf, letters, List.countP_append, List.countP_singleton, eq_comm]

section Single
variable {db next : Db} {call : Call} {answer : Answer} {jobId : Uuid} {job row : CrawlJob}

/-- The effect of a call that writes one locked job and adds no dead letter. -/
private theorem effect_single {written : CrawlJob} {performed : Act String Time}
    (wrote : db.write row = .ok (written, next)) (found : db.jobs.find? jobId = some job)
    (same : row.jobId = job.jobId)
    (recorded : ∀ id, act ⟨call, .ok answer⟩ id = if id = jobId then some performed else none)
    (advances : job.columns.Advances performed row.columns)
    (key : row.idempotencyKey = job.idempotencyKey) (unfinished : job.status.terminal = false)
    (unquarantined : row.status ≠ .quarantined) (id : Uuid) : Effect db next call answer id := by
  have located := ((db.jobs.find?_eq_some _ _).mp found).2
  obtain ⟨_, letters, lookup⟩ := write_eq_ok wrote (same ▸ located ▸ found)
  refine ⟨0, ?_, by simp only [lettersOf, letters, Nat.add_zero]⟩
  rw [lookup, recorded, same, located]
  by_cases here : id = jobId
  · subst here
    simp only [if_true, found]
    have effect : JobEffect db call id _ _ _ _ := .moved advances key unfinished
    simpa only [if_neg unquarantined] using effect
  · simp only [if_neg here]
    exact .same _

/-- The effect of a call that quarantines one locked job. -/
private theorem effect_quarantine {performed : Act String Time} {middle : Db}
    {reason : DeadLetterReason} {errorCode : String} {errorMessage : Option String} {now : Time}
    (found : db.jobs.find? jobId = some job)
    (done : quarantineLocked db job reason errorCode errorMessage now = .ok (row, middle))
    (jobs : next.jobs = middle.jobs) (deadLetters : next.deadLetters = middle.deadLetters)
    (recorded : ∀ id, act ⟨call, .ok answer⟩ id = if id = jobId then some performed else none)
    (advances : job.columns.Advances performed
      ⟨.quarantined, none, none, job.attempt, job.maxAttempts⟩)
    (unfinished : job.status.terminal = false) (id : Uuid) : Effect db next call answer id := by
  have located := ((db.jobs.find?_eq_some _ _).mp found).2
  obtain ⟨status, key, columns, lookup, letters⟩ := quarantineLocked_eq_ok (located ▸ found) done
  refine ⟨if id = jobId then 1 else 0, ?_, ?_⟩
  · rw [jobs, lookup, recorded, located]
    by_cases here : id = jobId
    · subst here
      simp only [if_true, found]
      rw [← columns] at advances
      have effect : JobEffect db call id _ _ _ _ := .moved advances key unfinished
      simpa only [if_pos status] using effect
    · simp only [if_neg here]
      exact .same _
  · have count := letters id
    rw [located] at count
    simpa only [lettersOf, deadLetters] using count

end Single

theorem CrawlJob.admissible_limit {job : CrawlJob} (admissible : job.admissible = true) :
    1 ≤ job.maxAttempts := by
  simp only [CrawlJob.admissible, Bool.and_eq_true, decide_eq_true_eq] at admissible
  tauto

theorem enqueue_effect {db next : Db} {job : NewJob} {draw : Uuid} {now : Time} {row : CrawlJob}
    (done : enqueue db job draw now = .ok (row, next)) (id : Uuid) :
    Effect db next (.enqueue job draw now) (.job row) id := by
  unfold enqueue at done
  simp only [Except.bind_eq_ok, ensure_eq_ok] at done
  obtain ⟨_, admissible, done⟩ := done
  cases known : byIdempotencyKey db job.idempotencyKey with
  | some existing =>
    simp only [known, pure, Except.pure, Except.ok.injEq, Prod.mk.injEq] at done
    obtain ⟨rfl, rfl⟩ := done
    exact ⟨0, .same _, rfl⟩
  | none =>
    simp only [known, pure, Except.pure, Except.ok.injEq, Prod.mk.injEq] at done
    obtain ⟨rfl, rfl⟩ := done
    have fresh := newEntityId_not_mem db.jobs.keys draw
    refine ⟨0, ?_, rfl⟩
    change JobEffect _ _ _ _ none ((db.jobs.insert _).find? id) 0
    rw [db.jobs.find?_insert _ fresh]
    change JobEffect _ _ _ _ _ (if newEntityId db.jobs.keys draw = id then _ else _) _
    by_cases here : newEntityId db.jobs.keys draw = id
    · have absent : db.jobs.find? id = none := (db.jobs.find?_eq_none id).mpr (here ▸ fresh)
      have limit : 1 ≤ job.maxAttempts := CrawlJob.admissible_limit admissible
      rw [if_pos here, absent, here]
      exact .created job draw now rfl here.symm known limit
    · rw [if_neg here]
      exact .same _

/-- A bulk update of selected jobs is one act on each of them. -/
private theorem effect_bulk {db next : Db} {call : Call} {answer : Answer} {chosen : List CrawlJob}
    (f : CrawlJob → CrawlJob)
    (bulk : ∃ keeps, next.jobs =
      db.jobs.update (fun job => decide (job.jobId ∈ chosen.map CrawlJob.jobId)) f keeps)
    (deadLetters : next.deadLetters = db.deadLetters)
    (members : ∀ job ∈ chosen, job ∈ db.jobs.rows) {performed : Act String Time}
    (recorded : ∀ id, act ⟨call, .ok answer⟩ id =
      if id ∈ chosen.map CrawlJob.jobId then some performed else none)
    (advances : ∀ job ∈ chosen, job.columns.Advances performed (f job).columns)
    (key : ∀ job, (f job).idempotencyKey = job.idempotencyKey)
    (unfinished : ∀ job ∈ chosen, job.status.terminal = false)
    (unquarantined : ∀ job, (f job).status ≠ .quarantined) (id : Uuid) :
    Effect db next call answer id := by
  obtain ⟨keeps, bulk⟩ := bulk
  refine ⟨0, ?_, by simp only [lettersOf, deadLetters, Nat.add_zero]⟩
  rw [bulk, Table.find?_update, recorded]
  cases found : db.jobs.find? id with
  | none =>
    have unchosen : id ∉ chosen.map CrawlJob.jobId := by
      intro member
      obtain ⟨job, picked, rfl⟩ := List.mem_map.mp member
      rw [db.jobs.find?_of_mem (members job picked)] at found
      cases found
    rw [if_neg unchosen]
    exact .absent
  | some job =>
    obtain ⟨present, rfl⟩ := (db.jobs.find?_eq_some _ _).mp found
    simp only [Option.map_some, decide_eq_true_eq]
    by_cases member : job.jobId ∈ chosen.map CrawlJob.jobId
    · obtain ⟨picked, isPicked, same⟩ := List.mem_map.mp member
      have identical := db.jobs.eq_of_key_eq (members picked isPicked) present same
      subst identical
      rw [if_pos member, if_pos member]
      have effect : JobEffect db call picked.jobId _ _ _ _ :=
        .moved (advances picked isPicked) (key picked) (unfinished picked isPicked)
      simpa only [if_neg (unquarantined picked)] using effect
    · rw [if_neg member, if_neg member]
      exact .kept job

theorem claim_effect {db next : Db} {jobTypes : List String} {worker : String}
    {leaseSeconds limit : Int} {skip : List Uuid} {now : Time} {jobs : List CrawlJob}
    (done : claim db jobTypes worker leaseSeconds limit skip now = .ok (jobs, next)) (id : Uuid) :
    Effect db next (.claim jobTypes worker leaseSeconds limit skip now) (.jobs jobs) id := by
  unfold claim at done
  split at done
  · simp only [pure, Except.pure, Except.ok.injEq, Prod.mk.injEq] at done
    obtain ⟨rfl, rfl⟩ := done
    exact ⟨0, .same _, rfl⟩
  · simp only [Except.bind_eq_ok, ensure_eq_ok, pure, Except.pure, Except.ok.injEq,
      Prod.mk.injEq] at done
    obtain ⟨_, _, _, _, rfl, rfl⟩ := done
    apply effect_bulk fun job => job.lease worker leaseSeconds now
    · exact ⟨fun _ => rfl, rfl⟩
    · rfl
    · exact fun job picked => (Table.mem_of_mem_select picked).1
    · intro other
      simp only [act, List.mem_map, List.mem_insertionSort]
      congr 1
      simp [CrawlJob.lease]
    · intro job picked
      have chosen := (Table.mem_of_mem_select picked).2
      simp only [Bool.and_eq_true] at chosen
      exact LeaseColumns.advances_claim chosen.1.1.1 _
    · exact fun _ => rfl
    · intro job picked
      have chosen := (Table.mem_of_mem_select picked).2
      simp only [Bool.and_eq_true] at chosen
      cases status : job.status <;> simp [status, JobStatus.claimable, JobStatus.terminal] at chosen ⊢
    · rintro _ ⟨⟩

theorem recoverExpiredLeases_effect {db next : Db} {limit : Int} {skip : List Uuid} {now : Time}
    {ids : List Uuid} (done : recoverExpiredLeases db limit skip now = .ok (ids, next)) (id : Uuid) :
    Effect db next (.recoverExpiredLeases limit skip now) (.ids ids) id := by
  unfold recoverExpiredLeases at done
  simp only [Except.bind_eq_ok, ensure_eq_ok, pure, Except.pure, Except.ok.injEq,
    Prod.mk.injEq] at done
  obtain ⟨_, _, rfl, rfl⟩ := done
  apply effect_bulk fun job => job.recover now
  · exact ⟨fun _ => rfl, rfl⟩
  · rfl
  · exact fun job picked => (Table.mem_of_mem_select picked).1
  · exact fun _ => rfl
  · intro job picked
    have chosen := (Table.mem_of_mem_select picked).2
    simp only [Bool.and_eq_true, decide_eq_true_eq] at chosen
    have ended := chosen.1.2
    unfold CrawlJob.expired at ended
    split at ended
    · rename_i expires deadline
      exact LeaseColumns.advances_expire chosen.1.1 deadline (by simpa using ended)
    · cases ended
  · exact fun _ => rfl
  · intro job picked
    have chosen := (Table.mem_of_mem_select picked).2
    simp only [Bool.and_eq_true, decide_eq_true_eq] at chosen
    rw [chosen.1.1]
    rfl
  · rintro _ ⟨⟩

section Reports
variable {db next : Db} {jobId : Uuid} {owner : String} {now : Time}

private theorem unfinished_of_leased {job : CrawlJob} (leased : job.status = .leased) :
    job.status.terminal = false := by
  rw [leased]
  rfl

theorem heartbeat_effect {leaseSeconds : Int} {instant : Time}
    (done : heartbeat db jobId owner leaseSeconds now = .ok (instant, next)) (id : Uuid) :
    Effect db next (.heartbeat jobId owner leaseSeconds now) (.expires instant) id := by
  unfold heartbeat at done
  simp only [Except.bind_eq_ok, lockOwned_eq_ok, pure, Except.pure, Except.ok.injEq,
    Prod.mk.injEq] at done
  obtain ⟨job, ⟨found, leased, owned⟩, ⟨row, middle⟩, wrote, rfl, rfl⟩ := done
  exact effect_single wrote found rfl (fun _ => rfl)
    (LeaseColumns.advances_extend leased owned _) rfl (unfinished_of_leased leased)
    (by simp [leased]) id

theorem complete_effect {row : CrawlJob} (done : complete db jobId owner now = .ok (row, next))
    (id : Uuid) : Effect db next (.complete jobId owner now) (.job row) id := by
  unfold complete at done
  simp only [Except.bind_eq_ok, lockOwned_eq_ok] at done
  obtain ⟨job, ⟨found, leased, owned⟩, wrote⟩ := done
  exact effect_single wrote found rfl (fun _ => rfl)
    (LeaseColumns.advances_finish leased owned rfl) rfl (unfinished_of_leased leased)
    (by simp) id

theorem release_effect {notBefore : Option Time} {row : CrawlJob}
    (done : release db jobId owner notBefore now = .ok (row, next)) (id : Uuid) :
    Effect db next (.release jobId owner notBefore now) (.job row) id := by
  unfold release at done
  simp only [Except.bind_eq_ok, lockOwned_eq_ok] at done
  obtain ⟨job, ⟨found, leased, owned⟩, wrote⟩ := done
  exact effect_single wrote found rfl (fun _ => rfl)
    (LeaseColumns.advances_refund leased owned) rfl (unfinished_of_leased leased)
    (by simp) id

theorem retry_effect {errorCode : String} {errorMessage : Option String} {policy : Backoff}
    {notBefore : Option Time} {row : CrawlJob}
    (done : retry db jobId owner errorCode errorMessage policy notBefore now = .ok (row, next))
    (id : Uuid) :
    Effect db next (.retry jobId owner errorCode errorMessage policy notBefore now) (.job row) id := by
  unfold retry at done
  simp only [Except.bind_eq_ok, lockOwned_eq_ok] at done
  obtain ⟨job, ⟨found, leased, owned⟩, done⟩ := done
  have located := ((db.jobs.find?_eq_some _ _).mp found).2
  split at done
  · have status := (quarantineLocked_eq_ok (located ▸ found) done).1
    refine effect_quarantine found done rfl rfl (fun other => ?_)
      (LeaseColumns.advances_finish leased owned rfl) (unfinished_of_leased leased) id
    simp only [act, if_pos status]
  · rename_i budget
    obtain ⟨rfl, _⟩ := write_eq_ok done (located ▸ found)
    exact effect_single done found rfl (fun _ => rfl)
      (LeaseColumns.advances_retry leased owned (not_le.mp budget)) rfl
      (unfinished_of_leased leased) (by simp) id

theorem quarantine_effect {owner : Option String} {errorCode : String}
    {errorMessage actor reason requestId : Option String} {row : CrawlJob}
    (done : quarantine db jobId owner errorCode errorMessage actor reason requestId now =
      .ok (row, next)) (id : Uuid) :
    Effect db next (.quarantine jobId owner errorCode errorMessage actor reason requestId now)
      (.job row) id := by
  cases owner with
  | some owner =>
    simp only [quarantine, Except.bind_eq_ok, lockOwned_eq_ok] at done
    obtain ⟨job, ⟨found, leased, owned⟩, done⟩ := done
    exact effect_quarantine found done rfl rfl (fun _ => rfl)
      (LeaseColumns.advances_finish leased owned rfl) (unfinished_of_leased leased) id
  | none =>
    simp only [quarantine, Except.bind_eq_ok, lockAny_eq_ok, pure, Except.pure, Except.ok.injEq,
      Prod.mk.injEq] at done
    obtain ⟨_, _, job, ⟨found, unfinished⟩, ⟨written, middle⟩, done, _, _, rfl, rfl⟩ := done
    exact effect_quarantine found done rfl rfl (fun _ => rfl)
      (LeaseColumns.advances_revoke rfl) unfinished id

end Reports

theorem exec_effect {db next : Db} {call : Call} {a : Answer}
    (answered : machine.exec call db = .ok (a, next)) (id : Uuid) : Effect db next call a id := by
  cases call with
  | enqueue job draw now =>
    obtain ⟨row, done, rfl⟩ := answer_eq_ok.mp answered
    exact enqueue_effect done id
  | claim jobTypes worker leaseSeconds limit skip now =>
    obtain ⟨jobs, done, rfl⟩ := answer_eq_ok.mp answered
    exact claim_effect done id
  | heartbeat jobId owner leaseSeconds now =>
    obtain ⟨instant, done, rfl⟩ := answer_eq_ok.mp answered
    exact heartbeat_effect done id
  | complete jobId owner now =>
    obtain ⟨row, done, rfl⟩ := answer_eq_ok.mp answered
    exact complete_effect done id
  | retry jobId owner errorCode errorMessage policy notBefore now =>
    obtain ⟨row, done, rfl⟩ := answer_eq_ok.mp answered
    exact retry_effect done id
  | quarantine jobId owner errorCode errorMessage actor reason requestId now =>
    obtain ⟨row, done, rfl⟩ := answer_eq_ok.mp answered
    exact quarantine_effect done id
  | release jobId owner notBefore now =>
    obtain ⟨row, done, rfl⟩ := answer_eq_ok.mp answered
    exact release_effect done id
  | recoverExpiredLeases limit skip now =>
    obtain ⟨ids, done, rfl⟩ := answer_eq_ok.mp answered
    exact recoverExpiredLeases_effect done id

/-- The queue is a lease queue over `crawl_jobs`. -/
def leaseQueue : LeaseQueue machine where
  row db id := (db.jobs.find? id).map CrawlJob.columns
  act := act
  raised call e id := by
    cases call with
    | quarantine _ owner => cases owner <;> rfl
    | _ => rfl
  effect := by
    intro db next call a answered id
    obtain ⟨letters, effect, _⟩ := exec_effect answered id
    generalize db.jobs.find? id = before, act ⟨call, .ok a⟩ id = performed,
      next.jobs.find? id = after at effect
    cases effect with
    | absent => exact .absent
    | created job draw now => exact .created job.maxAttempts
    | kept job => exact .kept job.columns
    | moved advances => exact .moved advances

end Collector.Persistence.Queue
