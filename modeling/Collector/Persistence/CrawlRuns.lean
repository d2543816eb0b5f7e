import Collector.Lib.Table
import Collector.Persistence.Core

/-!
Crawl runs, `crawl_runs`. A partial unique index over the running full crawls keeps a source from being
crawled in full twice at a time. Counted over any run of calls, the full crawls of a source take turns,
and a crawl is finished once.
-/

namespace Collector.Persistence.CrawlRuns
open Collector.Lib

/-- `CRAWL_RUN_KINDS`. -/
inductive CrawlRunKind where
  | full
  | incremental
  | replay
  | backfill
  deriving DecidableEq, Repr

def CrawlRunKind.value : CrawlRunKind → String
  | .full => "full"
  | .incremental => "incremental"
  | .replay => "replay"
  | .backfill => "backfill"

def crawlRunKinds : List CrawlRunKind := [.full, .incremental, .replay, .backfill]

/-- `CRAWL_RUN_STATUSES`. -/
inductive CrawlRunStatus where
  | running
  | succeeded
  | failed
  | cancelled
  deriving DecidableEq, Repr

def CrawlRunStatus.value : CrawlRunStatus → String
  | .running => "running"
  | .succeeded => "succeeded"
  | .failed => "failed"
  | .cancelled => "cancelled"

def finishedRunStatuses : List CrawlRunStatus := [.succeeded, .failed, .cancelled]

structure CrawlRun where
  id : Uuid
  sourceId : Uuid
  policyVersionId : Option Uuid
  kind : CrawlRunKind
  status : CrawlRunStatus
  startedBy : String
  startedAt : Time
  finishedAt : Option Time
  errorCode : Option String
  createdAt : Time
  updatedAt : Time
  deriving DecidableEq, Repr

/-- The column types of `crawl_runs`. -/
def CrawlRun.admissible (run : CrawlRun) : Bool := fits 128 (some run.startedBy) && fits 64 run.errorCode

/-- The row is in `uq_crawl_runs_running_full` under this source. -/
def CrawlRun.holds (run : CrawlRun) (sourceId : Uuid) : Bool :=
  decide (run.status = .running ∧ run.kind = .full ∧ run.sourceId = sourceId)

structure Db where
  runs : Table CrawlRun.id

def Db.empty : Db := ⟨∅⟩

/-- A full crawl of the source is running. -/
def Db.busy (db : Db) (sourceId : Uuid) : Bool := db.runs.rows.any fun run => run.holds sourceId

/-- Only a full crawl goes into the index, so no other one meets a conflict there. -/
def startRun (db : Db) (sourceId : Uuid) (kind startedBy : String) (policyVersionId : Option Uuid)
    (draw : Uuid) (now : Time) : Except PersistenceError (CrawlRun × Db) := do
  let known ← require (crawlRunKinds.find? fun known => known.value = kind) (.valueError "kind")
  let run : CrawlRun := {
    id := newEntityId db.runs.keys draw, sourceId, policyVersionId, kind := known, status := .running,
    startedBy, startedAt := now, finishedAt := none, errorCode := none, createdAt := now,
    updatedAt := now }
  ensure run.admissible (.integrityError "crawl_runs")
  ensure (!(run.holds sourceId && db.busy sourceId)) (.conflict sourceId ["source_id"])
  return (run, { db with runs := db.runs.insert run })

def CrawlRun.finish (run : CrawlRun) (status : CrawlRunStatus) (errorCode : Option String) (now : Time) :
    CrawlRun :=
  { run with status := status, errorCode := errorCode, finishedAt := some now, updatedAt := now }

def finishRun (db : Db) (runId : Uuid) (status : String) (errorCode : Option String) (now : Time) :
    Except PersistenceError (CrawlRun × Db) := do
  let known ← require (finishedRunStatuses.find? fun known => known.value = status) (.valueError "status")
  let run ← require (db.runs.find? runId) (.notFound "crawl_runs" runId)
  ensure (decide (run.status = .running)) (.invalidTransition runId)
  ensure (run.finish known errorCode now).admissible (.integrityError "crawl_runs")
  return (run.finish known errorCode now, { db with runs := db.runs.put (run.finish known errorCode now) })

inductive Call where
  | startRun (sourceId : Uuid) (kind startedBy : String) (policyVersionId : Option Uuid) (draw : Uuid)
      (now : Time)
  | finishRun (runId : Uuid) (status : String) (errorCode : Option String) (now : Time)
  deriving DecidableEq, Repr

def machine : Machine Db Call CrawlRun PersistenceError where
  exec
    | .startRun sourceId kind startedBy policyVersionId draw now, db =>
      startRun db sourceId kind startedBy policyVersionId draw now
    | .finishRun runId status errorCode now, db => finishRun db runId status errorCode now

abbrev Event := Entry Call CrawlRun PersistenceError

/-- The entry started a full crawl of the source. -/
def starts (sourceId : Uuid) (entry : Event) : Bool :=
  match entry.outcome, entry.call with
  | .ok run, .startRun .. => decide (run.kind = .full ∧ run.sourceId = sourceId)
  | _, _ => false

/-- The entry finished a full crawl of the source. -/
def ends (sourceId : Uuid) (entry : Event) : Bool :=
  match entry.outcome, entry.call with
  | .ok run, .finishRun .. => decide (run.kind = .full ∧ run.sourceId = sourceId)
  | _, _ => false

/-- The entry finished this crawl. -/
def finishes (id : Uuid) (entry : Event) : Bool :=
  match entry.outcome, entry.call with
  | .ok run, .finishRun .. => decide (run.id = id)
  | _, _ => false

section Steps
variable {db next : Db} {run : CrawlRun}

/-- What an answered call does: a crawl is added, which waits for no other one, or a running one is
written back finished. -/
inductive Change (db : Db) : Call → CrawlRun → Db → Prop
  | started {sourceId : Uuid} {kind startedBy : String} {policyVersionId : Option Uuid} {draw : Uuid}
      {now : Time} {run : CrawlRun} (fresh : run.id ∉ db.runs.keys) (running : run.status = .running)
      (free : run.kind = .full → db.busy run.sourceId = false) :
      Change db (.startRun sourceId kind startedBy policyVersionId draw now) run ⟨db.runs.insert run⟩
  | finished {runId : Uuid} {status : String} {errorCode : Option String} {now : Time} {old : CrawlRun}
      {known : CrawlRunStatus} (found : db.runs.find? old.id = some old) (running : old.status = .running)
      (closed : known ≠ .running) :
      Change db (.finishRun runId status errorCode now) (old.finish known errorCode now)
        ⟨db.runs.put (old.finish known errorCode now)⟩

theorem exec_change {call : Call} (done : machine.exec call db = .ok (run, next)) :
    Change db call run next := by
  cases call with
  | startRun sourceId kind startedBy policyVersionId draw now =>
    simp only [machine, startRun, Except.bind_eq_ok, ensure_eq_ok, require_eq_ok, pure, Except.pure,
      Except.ok.injEq, Prod.mk.injEq] at done
    obtain ⟨known, _, _, _, _, free, rfl, rfl⟩ := done
    refine .started (newEntityId_not_mem _ _) rfl fun full => ?_
    have full : known = .full := full
    simpa [CrawlRun.holds, full] using free
  | finishRun runId status errorCode now =>
    simp only [machine, finishRun, Except.bind_eq_ok, ensure_eq_ok, require_eq_ok, decide_eq_true_eq,
      pure, Except.pure, Except.ok.injEq, Prod.mk.injEq] at done
    obtain ⟨known, listed, old, found, _, running, _, _, rfl, rfl⟩ := done
    have named := ((db.runs.find?_eq_some _ _).mp found).2
    refine .finished (named ▸ found) running fun open' => ?_
    have member := List.mem_of_find?_eq_some listed
    rw [open'] at member
    simp [finishedRunStatuses] at member

/-- The crawl is in the index under the source. -/
def Db.Holder (db : Db) (sourceId id : Uuid) : Prop :=
  ∃ row, db.runs.find? id = some row ∧ row.holds sourceId = true

/-- `uq_crawl_runs_running_full`. -/
def Db.Exclusive (db : Db) : Prop :=
  ∀ sourceId i j, db.Holder sourceId i → db.Holder sourceId j → i = j

theorem Db.busy_iff {sourceId : Uuid} : db.busy sourceId = true ↔ ∃ id, db.Holder sourceId id := by
  rw [Db.busy, List.any_eq_true]
  constructor
  · rintro ⟨row, present, holds⟩
    exact ⟨row.id, row, db.runs.find?_of_mem present, holds⟩
  · rintro ⟨id, row, found, holds⟩
    exact ⟨row, ((db.runs.find?_eq_some _ _).mp found).1, holds⟩

theorem CrawlRun.holds_of_running {sourceId : Uuid} (running : run.status = .running) :
    run.holds sourceId = decide (run.kind = .full ∧ run.sourceId = sourceId) := by
  simp [CrawlRun.holds, running]

theorem holder_insert (fresh : run.id ∉ db.runs.keys) {sourceId id : Uuid} :
    (Db.mk (db.runs.insert run)).Holder sourceId id ↔
      run.id = id ∧ run.holds sourceId = true ∨ db.Holder sourceId id := by
  simp only [Db.Holder, db.runs.find?_insert run fresh]
  by_cases here : run.id = id
  · have absent : db.runs.find? id = none := (db.runs.find?_eq_none _).mpr (here ▸ fresh)
    simp [here, absent]
  · simp [here]

theorem holder_put {old : CrawlRun} (found : db.runs.find? old.id = some old) {known : CrawlRunStatus}
    (closed : known ≠ .running) {errorCode : Option String} {now : Time} {sourceId id : Uuid} :
    (Db.mk (db.runs.put (old.finish known errorCode now))).Holder sourceId id ↔
      id ≠ old.id ∧ db.Holder sourceId id := by
  simp only [Db.Holder, db.runs.find?_put (old.finish known errorCode now) found]
  by_cases here : id = old.id
  · simp [here, CrawlRun.finish, CrawlRun.holds, closed]
  · simp [here, CrawlRun.finish]

theorem Change.exclusive {call : Call} (change : Change db call run next) (alone : db.Exclusive) :
    next.Exclusive := by
  intro sourceId i j first second
  cases change with
  | started fresh running free =>
    rw [holder_insert fresh] at first second
    have waits {id : Uuid} (holds : run.holds sourceId = true) (held : db.Holder sourceId id) : False := by
      simp only [CrawlRun.holds, decide_eq_true_eq] at holds
      have vacant := free holds.2.1
      rw [holds.2.2, Bool.eq_false_iff] at vacant
      exact vacant (Db.busy_iff.mpr ⟨id, held⟩)
    rcases first with ⟨rfl, holds⟩ | first
    · exact second.elim (fun same => same.1) fun held => (waits holds held).elim
    · exact second.elim (fun same => (waits same.2 first).elim) (alone sourceId i j first)
  | finished found _ closed =>
    rw [holder_put found closed] at first second
    exact alone sourceId i j first.2 second.2

/-- A source becomes busy when a full crawl of it starts and is free again when it ends. -/
theorem Change.turn {call : Call} (change : Change db call run next) (alone : db.Exclusive)
    (sourceId : Uuid) :
    (if starts sourceId ⟨call, .ok run⟩ then 1 else 0) + (if db.busy sourceId then 1 else 0) =
      (if ends sourceId ⟨call, .ok run⟩ then 1 else 0) + (if next.busy sourceId then 1 else 0) := by
  cases change with
  | started fresh running free =>
    have after : (Db.mk (db.runs.insert run)).busy sourceId =
        (db.busy sourceId || run.holds sourceId) := by
      simp [Db.busy, db.runs.rows_insert run fresh]
    simp only [starts, ends, after, ← CrawlRun.holds_of_running running]
    cases holds : run.holds sourceId with
    | false => simp
    | true =>
      simp only [CrawlRun.holds, decide_eq_true_eq] at holds
      have vacant := free holds.2.1
      rw [holds.2.2] at vacant
      simp [vacant]
  | @finished runId status errorCode now old known found running closed =>
    have quiet : starts sourceId ⟨.finishRun runId status errorCode now,
        .ok (old.finish known errorCode now)⟩ = false := rfl
    have owned : ends sourceId ⟨.finishRun runId status errorCode now,
        .ok (old.finish known errorCode now)⟩ = old.holds sourceId :=
      (CrawlRun.holds_of_running running).symm
    rw [quiet, owned]
    cases holds : old.holds sourceId with
    | true =>
      have before : db.busy sourceId = true := Db.busy_iff.mpr ⟨old.id, old, found, holds⟩
      have after : (Db.mk (db.runs.put (old.finish known errorCode now))).busy sourceId = false := by
        rw [Bool.eq_false_iff, ne_eq, Db.busy_iff]
        rintro ⟨id, held⟩
        obtain ⟨other, held⟩ := (holder_put found closed).mp held
        exact other (alone sourceId id old.id held ⟨old, found, holds⟩)
      simp [before, after]
    | false =>
      have same : (Db.mk (db.runs.put (old.finish known errorCode now))).busy sourceId =
          db.busy sourceId := by
        rw [Bool.eq_iff_iff, Db.busy_iff, Db.busy_iff]
        refine exists_congr fun id => (holder_put found closed).trans (and_iff_right_of_imp ?_)
        rintro ⟨row, there, held⟩ rfl
        rw [found] at there
        cases there
        rw [holds] at held
        cases held
      rw [same]

/-- The crawl is over. -/
def Db.finished (db : Db) (id : Uuid) : Bool :=
  (db.runs.find? id).any fun row => decide (row.status ≠ .running)

theorem Change.finishes_once {call : Call} (change : Change db call run next) (id : Uuid) :
    (if finishes id ⟨call, .ok run⟩ then 1 else 0) + (if db.finished id then 1 else 0) =
      if next.finished id then 1 else 0 := by
  cases change with
  | started fresh running free =>
    simp only [finishes, Db.finished, db.runs.find?_insert run fresh]
    by_cases here : run.id = id
    · have absent : db.runs.find? id = none := (db.runs.find?_eq_none _).mpr (here ▸ fresh)
      simp [here, absent, running]
    · simp [here]
  | @finished _ _ errorCode now old known found running closed =>
    simp only [finishes, Db.finished, db.runs.find?_put (old.finish known errorCode now) found]
    by_cases here : id = old.id
    · simp [here, found, running, closed, CrawlRun.finish]
    · simp [here, Ne.symm here, CrawlRun.finish]

/-- A crawl that is over is not written to again. -/
theorem Change.keeps {call : Call} (change : Change db call run next) {id : Uuid} {row : CrawlRun}
    (found : db.runs.find? id = some row) (closed : row.status ≠ .running) :
    next.runs.find? id = some row := by
  cases change with
  | started fresh _ _ =>
    have apart : run.id ≠ id := fun here =>
      fresh (here ▸ (db.runs.mem_keys_iff _).mpr ⟨row, found⟩)
    rw [db.runs.find?_insert run fresh, if_neg apart, found]
  | @finished _ _ errorCode now old known held running _ =>
    have apart : id ≠ old.id := by
      rintro rfl
      rw [held] at found
      cases found
      exact closed running
    exact (db.runs.find?_put_of_ne (old.finish known errorCode now) apart).trans found

end Steps

namespace Sample

/-- The second start comes too early, the third one after the first crawl has ended. -/
def ran : List Event × Db := machine.replay Db.empty [.startRun 1 "full" "operator" none 0x31 0,
  .startRun 1 "full" "operator" none 0x32 1, .finishRun 0x31 "succeeded" none 2,
  .startRun 1 "full" "operator" none 0x33 3]

theorem run_ran : machine.Run Db.empty ran.1 ran.2 := machine.run_replay Db.empty _

end Sample

section Results
variable {history : List Event} {db : Db}

theorem run_turns (run : machine.Run Db.empty history db) (sourceId : Uuid) :
    db.Exclusive ∧ history.countP (starts sourceId) =
      history.countP (ends sourceId) + if db.busy sourceId then 1 else 0 := by
  induction run with
  | nil =>
    refine ⟨?_, rfl⟩
    rintro _ _ _ ⟨_, found, _⟩
    cases found
  | raise _ _ ih => simpa [List.countP_cons, starts, ends] using ih
  | answer _ answered ih =>
    obtain ⟨alone, turns⟩ := ih
    have change := exec_change answered
    have turn := change.turn alone sourceId
    refine ⟨change.exclusive alone, ?_⟩
    rw [List.countP_cons, List.countP_cons]
    omega

/-- A start is refused for a conflict exactly if a full crawl of a busy source is asked for. -/
theorem startRun_conflict (db : Db) (sourceId : Uuid) (kind startedBy : String)
    (policyVersionId : Option Uuid) (draw : Uuid) (now : Time) :
    startRun db sourceId kind startedBy policyVersionId draw now =
        .error (.conflict sourceId ["source_id"]) ↔
      kind = "full" ∧ startedBy.length ≤ 128 ∧ db.busy sourceId = true := by
  by_cases full : kind = "full"
  · subst full
    by_cases short : startedBy.length ≤ 128
    · cases busy : db.busy sourceId <;>
        simp [startRun, crawlRunKinds, CrawlRunKind.value, CrawlRun.admissible, CrawlRun.holds, fits,
          short, busy, require, ensure, bind, Except.bind, pure, Except.pure]
    · simp [startRun, crawlRunKinds, CrawlRunKind.value, CrawlRun.admissible, fits, short, require,
        ensure, bind, Except.bind]
  · simp only [full, false_and, iff_false]
    intro refused
    simp only [startRun, Except.bind_eq_error, require_eq_error, require_eq_ok, ensure_eq_error,
      ensure_eq_ok, pure, Except.pure, reduceCtorEq, and_false, exists_false, false_or, or_false,
      Bool.not_eq_false', Bool.and_eq_true] at refused
    obtain ⟨known, listed, _, _, ⟨held, _⟩, _⟩ := refused
    have named := List.find?_some listed
    simp only [CrawlRun.holds, decide_eq_true_eq] at held named
    rw [held.2.1] at named
    exact full named.symm

/-- At any time one full crawl of a source is running at most, and between two that start one ends. A
start is refused for it exactly while one has started and not ended; other kinds are never refused. -/
theorem full_runs_take_turns (run : machine.Run Db.empty history db) (sourceId : Uuid) :
    (∀ row ∈ db.runs.rows, ∀ other ∈ db.runs.rows, row.holds sourceId = true →
      other.holds sourceId = true → row = other) ∧
    history.countP (ends sourceId) ≤ history.countP (starts sourceId) ∧
    history.countP (starts sourceId) ≤ history.countP (ends sourceId) + 1 ∧
    ∀ (kind startedBy : String) (policyVersionId : Option Uuid) (draw : Uuid) (now : Time),
      startRun db sourceId kind startedBy policyVersionId draw now =
          .error (.conflict sourceId ["source_id"]) ↔
        kind = "full" ∧ startedBy.length ≤ 128 ∧
          history.countP (starts sourceId) = history.countP (ends sourceId) + 1 := by
  obtain ⟨alone, turns⟩ := run_turns run sourceId
  refine ⟨fun row present other also holds held => ?_, by omega, ?_, fun kind startedBy _ _ _ => ?_⟩
  · have same := alone sourceId row.id other.id ⟨row, db.runs.find?_of_mem present, holds⟩
      ⟨other, db.runs.find?_of_mem also, held⟩
    exact db.runs.eq_of_key_eq present also same
  · split at turns <;> omega
  · rw [startRun_conflict]
    cases busy : db.busy sourceId <;> simp [busy] at turns ⊢ <;> omega

theorem full_runs_take_turns_sample : Sample.ran.1.countP (starts 1) ≤ Sample.ran.1.countP (ends 1) + 1 :=
  (full_runs_take_turns Sample.run_ran 1).2.2.1

example : Sample.ran.1.countP (starts 1) = 2 ∧ Sample.ran.1.countP (ends 1) = 1 ∧
    Sample.ran.2.busy 1 = true := by
  decide +kernel

theorem run_finishes {newer : List Event} {later : Db} (run : machine.Run db newer later) (id : Uuid) :
    newer.countP (finishes id) + (if db.finished id then 1 else 0) = if later.finished id then 1 else 0 := by
  induction run with
  | nil => exact Nat.zero_add _
  | raise _ _ ih => simpa [List.countP_cons, finishes] using ih
  | answer _ answered ih =>
    have once := (exec_change answered).finishes_once id
    rw [List.countP_cons]
    omega

theorem run_keeps_finished {newer : List Event} {later : Db} (run : machine.Run db newer later) {id : Uuid}
    {row : CrawlRun} (found : db.runs.find? id = some row) (closed : row.status ≠ .running) :
    later.runs.find? id = some row := by
  refine Machine.Run.invariant (P := fun db => db.runs.find? id = some row) found ?_ run
  intro _ _ _ _ held answered
  exact (exec_change answered).keeps held closed

/-- A crawl is finished by one call at most, by exactly one if it is over, and what that call wrote
lasts. -/
theorem finished_runs_last (run : machine.Run Db.empty history db) (id : Uuid) :
    history.countP (finishes id) = (if db.finished id then 1 else 0) ∧
    ∀ (newer : List Event) (later : Db) (row : CrawlRun), machine.Run db newer later →
      db.runs.find? id = some row → row.status ≠ .running →
        later.runs.find? id = some row ∧ newer.countP (finishes id) = 0 := by
  refine ⟨run_finishes run id, fun newer later row after found closed => ?_⟩
  have lasts := run_keeps_finished after found closed
  have once := run_finishes after id
  simp only [Db.finished, found, lasts, Option.any_some, decide_eq_true closed] at once
  exact ⟨lasts, by omega⟩

theorem finished_runs_last_sample :
    Sample.ran.1.countP (finishes 0x31) = if Sample.ran.2.finished 0x31 then 1 else 0 :=
  (finished_runs_last Sample.run_ran 0x31).1

end Results
end Collector.Persistence.CrawlRuns
