import Collector.Lib.Table
import Collector.Persistence.Core

/-!
The table of active tasks of one worker runtime, as its coroutines share it: the claim loop
starts tasks, each task runs its handler and reports, a heartbeat tick extends leases and
abandons the lost ones, and fencing abandons everything. Between two awaits a coroutine is not
interrupted, so one event here is what runs between two awaits, or one commit in the database.
An attempt is numbered by the order in which it was started; the table itself knows job ids
only, and the numbers are kept beside it to say whose entry is removed and why.
-/

namespace Collector.Workers
open Collector.Lib Collector.Persistence

/-- The row of a job: waiting, leased by this instance, leased elsewhere, or terminal. -/
inductive JobRow where
  | waiting
  | leased
  | elsewhere
  | finished
  deriving DecidableEq, Repr

/-- Where `_execute` stands: in the handler, in the report before or after its commit, or over. -/
inductive Phase where
  | handling
  | reporting
  | reported
  | ended
  deriving DecidableEq, Repr

/-- `cancelled`: `handle.cancel()` was called. `signalled`: the `CancelledError` is still to be
raised at the next await. -/
structure Attempt where
  job : Uuid
  phase : Phase
  cancelled : Bool
  signalled : Bool
  deriving DecidableEq, Repr

/-- An entry of `_active`, with the attempt it was created for. -/
structure ActiveEntry where
  job : Uuid
  attempt : Nat
  deriving DecidableEq, Repr

inductive ClaimState where
  | idle
  | asked (limit : Nat)
  | taken (jobs : List Uuid)
  deriving DecidableEq, Repr

/-- A heartbeat tick: the entries it still has to extend and those it found lost. -/
inductive TickState where
  | idle
  | beating (todo lost : List ActiveEntry)
  | confirmed (lost : List ActiveEntry)
  deriving DecidableEq, Repr

/-- The entries a tick in flight may still abandon. -/
def TickState.pending : TickState → List ActiveEntry
  | .idle => []
  | .beating todo lost => todo ++ lost
  | .confirmed lost => lost

/-- An entry left the table, and the attempt on whose account it did. -/
structure Removal where
  entry : Nat
  cause : Nat
  deriving DecidableEq, Repr

structure Runtime where
  rows : Uuid → JobRow
  attempts : List Attempt
  active : Table ActiveEntry.job
  fenced : Bool
  claim : ClaimState
  tick : TickState
  removals : List Removal

/-- `handle.cancel()`; a task that is over takes no notice. -/
def Attempt.cancel (a : Attempt) : Attempt :=
  if a.phase = .ended then a else { a with cancelled := true, signalled := true }

namespace Runtime

def initial (rows : Uuid → JobRow) : Runtime := ⟨rows, [], ∅, false, .idle, .idle, []⟩

/-- `self._active.pop(job, None)` on account of an attempt. -/
def pop (cause : Nat) (job : Uuid) (s : Runtime) : Runtime :=
  match s.active.find? job with
  | none => s
  | some entry =>
    { s with
      active := s.active.delete fun e => e.job = job
      removals := ⟨entry.attempt, cause⟩ :: s.removals }

/-- `_abandon`. -/
def abandon (cause : Nat) (job : Uuid) (s : Runtime) : Runtime :=
  match s.active.find? job with
  | none => s
  | some entry =>
    let s := s.pop cause job
    { s with attempts := s.attempts.modify entry.attempt Attempt.cancel }

/-- `_start`: the entry of the job is set, over whatever was there. -/
def start (s : Runtime) (job : Uuid) : Runtime :=
  let entry : ActiveEntry := ⟨job, s.attempts.length⟩
  let attempts := s.attempts ++ [⟨job, .handling, false, false⟩]
  match s.active.find? job with
  | none => { s with active := s.active.insert entry, attempts }
  | some old =>
    { s with
      active := s.active.put entry, attempts
      removals := ⟨old.attempt, s.attempts.length⟩ :: s.removals }

/-- `_fence_if_lease_unconfirmed` once the window has passed. -/
def fence (s : Runtime) : Runtime :=
  if s.fenced then s
  else s.active.rows.foldl (fun s entry => s.abandon entry.attempt entry.job) { s with fenced := true }

inductive Event where
  /-- The claim loop finds free slots under the present concurrency and asks the database. -/
  | claimBegin (slots : Nat)
  | claimCommit (jobs : List Uuid)
  | claimFail
  /-- `_claim` goes on after its transaction. -/
  | claimResume
  /-- The handler returned or raised, and `_report` opens its transaction. -/
  | handled (k : Nat)
  /-- The report is committed: the job is terminal, or claimable again after a retry or defer. -/
  | reportCommit (k : Nat) (again : Bool)
  /-- `_report` returned, whatever became of its transaction, and `finally` runs. -/
  | reportEnd (k : Nat)
  /-- The handler catches its `CancelledError` and goes on. -/
  | swallow (k : Nat)
  /-- The `CancelledError` ends the task. -/
  | unwind (k : Nat)
  | tickBegin
  /-- The tick's transaction extends the next lease, or finds it lost. -/
  | beat
  /-- The transaction is committed: the heartbeat is confirmed and the fence comes down. Unless
  the instance is still starting, `tickSettle` follows without a break. -/
  | tickConfirm
  | tickSettle
  /-- The tick failed or ran out of its budget; `fences` says whether the window has passed. -/
  | tickFail (fences : Bool)
  /-- The watchdog finds that the window has passed. -/
  | watchdog
  /-- `recover_expired_leases`, or an operator, takes the lease back. -/
  | recover (job : Uuid)
  /-- Other instances and the scheduler on rows that are not leased here. -/
  | others (job : Uuid) (row : JobRow)
  deriving DecidableEq, Repr

def setRow (s : Runtime) (job : Uuid) (row : JobRow) : Runtime :=
  { s with rows := Function.update s.rows job row }

def setPhase (s : Runtime) (k : Nat) (phase : Phase) : Runtime :=
  { s with attempts := s.attempts.modify k fun a => { a with phase } }

/-- `batch` is `claim_batch`. -/
def step (batch : Nat) (s : Runtime) : Event → Option Runtime
  | .claimBegin slots =>
    let limit := min (slots - s.active.rows.length) batch
    if s.claim = .idle ∧ s.fenced = false ∧ 0 < limit then some { s with claim := .asked limit } else none
  | .claimCommit jobs =>
    match s.claim with
    | .asked limit =>
      if jobs.Nodup ∧ jobs.length ≤ limit ∧ ∀ job ∈ jobs, s.rows job = .waiting then
        some { jobs.foldl (fun s job => s.setRow job .leased) s with claim := .taken jobs }
      else none
    | _ => none
  | .claimFail =>
    match s.claim with
    | .asked _ => some { s with claim := .idle }
    | _ => none
  | .claimResume =>
    match s.claim with
    | .taken jobs =>
      -- Claimed while fenced: the leases are left to expire.
      if s.fenced then some { s with claim := .idle }
      else some (jobs.foldl start { s with claim := .idle })
    | _ => none
  | .handled k =>
    match s.attempts[k]? with
    | some a =>
      if a.phase = .handling ∧ a.signalled = false then some (s.setPhase k .reporting) else none
    | none => none
  | .reportCommit k again =>
    match s.attempts[k]? with
    | some a =>
      -- The row must be leased by this owner; else the report raises `LeaseNotOwnedError`.
      if a.phase = .reporting ∧ s.rows a.job = .leased then
        some ((s.setRow a.job (if again then .waiting else .finished)).setPhase k .reported)
      else none
    | none => none
  | .reportEnd k =>
    match s.attempts[k]? with
    | some a =>
      if (a.phase = .reporting ∨ a.phase = .reported) ∧ a.signalled = false then
        some ((s.pop k a.job).setPhase k .ended)
      else none
    | none => none
  | .swallow k =>
    match s.attempts[k]? with
    | some a =>
      if a.phase = .handling ∧ a.signalled = true then
        some { s with attempts := s.attempts.modify k fun a => { a with signalled := false } }
      else none
    | none => none
  | .unwind k =>
    match s.attempts[k]? with
    | some a => if a.phase ≠ .ended ∧ a.signalled = true then some (s.setPhase k .ended) else none
    | none => none
  | .tickBegin =>
    match s.tick with
    | .idle => some { s with tick := .beating s.active.rows [] }
    | _ => none
  | .beat =>
    match s.tick with
    | .beating (entry :: todo) lost =>
      if s.rows entry.job = .leased then some { s with tick := .beating todo lost }
      else some { s with tick := .beating todo (lost ++ [entry]) }
    | _ => none
  | .tickConfirm =>
    match s.tick with
    | .beating [] lost => some { s with tick := .confirmed lost, fenced := false }
    | _ => none
  | .tickSettle =>
    match s.tick with
    | .confirmed lost =>
      some { lost.foldl (fun s entry => s.abandon entry.attempt entry.job) s with tick := .idle }
    | _ => none
  | .tickFail fences =>
    match s.tick with
    | .idle => none
    | _ =>
      let s := { s with tick := .idle }
      some (if fences then s.fence else s)
  | .watchdog => some s.fence
  | .recover job => if s.rows job = .leased then some (s.setRow job .waiting) else none
  | .others job row =>
    if s.rows job ≠ .leased ∧ s.rows job ≠ .finished ∧ row ≠ .leased then some (s.setRow job row)
    else none

/-- States reached by steps that all meet `ok`. -/
inductive Reach (batch : Nat) (ok : Runtime → Event → Prop) : Runtime → Prop where
  | start (rows : Uuid → JobRow) : Reach batch ok (initial rows)
  | step {s next : Runtime} {event : Event} :
      Reach batch ok s → ok s event → s.step batch event = some next → Reach batch ok next

/-- The events one after the other, as long as they meet `ok`. -/
def replay (batch : Nat) (ok : Runtime → Event → Prop) [∀ s event, Decidable (ok s event)]
    (s : Runtime) (events : List Event) : Option Runtime :=
  events.foldlM (fun s event => if ok s event then s.step batch event else none) s

theorem reach_replay {batch : Nat} {ok : Runtime → Event → Prop} [∀ s event, Decidable (ok s event)]
    {events : List Event} {s next : Runtime} (reached : Reach batch ok s)
    (ran : s.replay batch ok events = some next) : Reach batch ok next := by
  induction events generalizing s with
  | nil =>
    cases ran
    exact reached
  | cons event events ih =>
    rw [replay, List.foldlM_cons, Option.bind_eq_bind, Option.bind_eq_some_iff] at ran
    obtain ⟨middle, first, rest⟩ := ran
    split at first
    · rename_i allowed
      exact ih (reached.step allowed first) rest
    · cases first

end Runtime

/-- The table tracks attempts: every entry left on account of its own attempt, and every attempt
that runs and was not cancelled has its own entry. -/
structure Tracked (s : Runtime) : Prop where
  own : ∀ removal ∈ s.removals, removal.entry = removal.cause
  entry : ∀ k a, s.attempts[k]? = some a → a.phase ≠ .ended → a.cancelled = false →
    s.active.find? a.job = some ⟨a.job, k⟩

end Collector.Workers
