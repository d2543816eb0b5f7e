import Collector.Persistence.Core
import Collector.Workers.RuntimeConfig

/-!
The clockwork of one worker runtime: the heartbeat loop with its deadlines and its budget, the
watchdog, fencing, and the leases as the database has them. The database's clock is the worker's,
a coroutine that sleeps wakes when it asked to, and whatever else can happen takes no time of its
own: time passes in steps of its own, up to the next instant at which something is due.
-/

namespace Collector.Workers
open Collector.Persistence

/-- Where `_heartbeat_loop` stands: asleep, or in a tick that has read the active jobs and has
not yet, or has already, extended their leases. -/
inductive HeartbeatPhase where
  | asleep (due : ℚ)
  | ticking (start : ℚ) (jobs : List Uuid)
  | extended (start : ℚ) (lost : List Uuid)
  deriving DecidableEq, Repr

/-- `leases` is `lease_expires_at` as last written; `lastOk` is `_last_heartbeat_ok`. -/
structure Clockwork where
  now : ℚ
  lastOk : ℚ
  fenced : Bool
  stopped : Bool
  active : List Uuid
  leases : Uuid → ℚ
  deadline : ℚ
  phase : HeartbeatPhase
  wakeAt : ℚ

namespace Clockwork

/-- `await asyncio.sleep(max(deadline - monotonic(), 0.0))`, with the next deadline. -/
def sleep (c : WorkerRuntimeConfig) (s : Clockwork) : Clockwork :=
  let deadline := s.deadline + c.heartbeatSeconds
  { s with deadline, phase := .asleep (s.now + max (deadline - s.now) 0) }

/-- The end of `_boot`: both loops begin and nothing is claimed yet. -/
def initial (c : WorkerRuntimeConfig) (leases : Uuid → ℚ) : Clockwork :=
  sleep c ⟨0, 0, false, false, [], leases, 0, .asleep 0, c.watchdogInterval⟩

/-- `_fence_if_lease_unconfirmed`: every active task is abandoned. -/
def fenceIfLeaseUnconfirmed (c : WorkerRuntimeConfig) (s : Clockwork) : Clockwork :=
  if s.fenced then s
  else if s.now - s.lastOk < c.fenceAfter then s
  else { s with fenced := true, active := [] }

inductive ClockEvent where
  | elapse (seconds : ℚ)
  /-- The watchdog's sleep is over. -/
  | wake
  | tickBegin
  /-- The tick's transaction is committed; the leases of `lost` were no longer held. -/
  | extend (lost : List Uuid)
  /-- The tick goes on after its commit. -/
  | confirm
  /-- The transaction raised, or its commit was never confirmed. -/
  | tickFail
  /-- `InvalidTransitionError`: the instance is marked as stopped. -/
  | tickReject
  /-- The tick is cancelled at the end of its budget. -/
  | tickTimeout
  /-- Jobs are claimed and started. -/
  | claim (jobs : List Uuid)
  | finish (job : Uuid)
  deriving DecidableEq, Repr

/-- The next instant at which the heartbeat loop has to act. -/
def beatDue (c : WorkerRuntimeConfig) (s : Clockwork) : ℚ :=
  match s.phase with
  | .asleep due => due
  | .ticking start _ => start + c.heartbeatTickBudget
  | .extended start _ => start + c.heartbeatTickBudget

/-- `lease_expires_at = now + lease_seconds` for the jobs given. -/
def writeLeases (c : WorkerRuntimeConfig) (start : ℚ) (jobs : List Uuid) (s : Clockwork) : Clockwork :=
  { s with leases := fun job => if job ∈ jobs then start + c.leaseSeconds else s.leases job }

def step (c : WorkerRuntimeConfig) (s : Clockwork) : ClockEvent → Option Clockwork
  | .elapse seconds =>
    if 0 ≤ seconds ∧ s.now + seconds ≤ s.wakeAt ∧ s.now + seconds ≤ s.beatDue c then
      some { s with now := s.now + seconds }
    else none
  | .wake =>
    if s.now = s.wakeAt then
      some (fenceIfLeaseUnconfirmed c { s with wakeAt := s.now + c.watchdogInterval })
    else none
  | .tickBegin =>
    match s.phase with
    | .asleep due => if s.now = due then some { s with phase := .ticking s.now s.active } else none
    | _ => none
  | .extend lost =>
    match s.phase with
    | .ticking start jobs =>
      if lost ⊆ jobs then
        some { s.writeLeases c start (jobs.filter (· ∉ lost)) with phase := .extended start lost }
      else none
    | _ => none
  | .confirm =>
    match s.phase with
    | .extended _ lost =>
      some (sleep c { s with
        lastOk := s.now, fenced := false, active := s.active.filter (· ∉ lost) })
    | _ => none
  | .tickFail =>
    match s.phase with
    | .asleep _ => none
    | _ => some (sleep c (fenceIfLeaseUnconfirmed c s))
  | .tickReject =>
    match s.phase with
    | .ticking _ _ => some (sleep c { s with stopped := true })
    | _ => none
  | .tickTimeout =>
    match s.phase with
    | .asleep _ => none
    | _ => if s.now = s.beatDue c then some (sleep c (fenceIfLeaseUnconfirmed c s)) else none
  | .claim jobs =>
    if s.fenced = false ∧ s.stopped = false then
      some { s.writeLeases c s.now jobs with active := jobs ++ s.active.filter (· ∉ jobs) }
    else none
  | .finish job => some { s with active := s.active.filter (· ≠ job) }

/-- The states of every timing of the ticks. -/
inductive Reach (c : WorkerRuntimeConfig) : Clockwork → Prop where
  | start (leases : Uuid → ℚ) : Reach c (initial c leases)
  | step {s next : Clockwork} {event : ClockEvent} :
      Reach c s → s.step c event = some next → Reach c next

/-- No active task is past the lease that the database has for it. -/
def Covered (s : Clockwork) : Prop := ∀ job ∈ s.active, s.now < s.leases job

/-- The events one after the other. -/
def replay (c : WorkerRuntimeConfig) (s : Clockwork) (events : List ClockEvent) : Option Clockwork :=
  events.foldlM (fun s event => s.step c event) s

theorem reach_of_replay {c : WorkerRuntimeConfig} {events : List ClockEvent} {s next : Clockwork}
    (reached : Reach c s) (ran : s.replay c events = some next) : Reach c next := by
  induction events generalizing s with
  | nil =>
    cases ran
    exact reached
  | cons event rest ih =>
    rw [replay, List.foldlM_cons, Option.bind_eq_bind, Option.bind_eq_some_iff] at ran
    obtain ⟨middle, taken, ran⟩ := ran
    exact ih (.step reached taken) ran

end Clockwork

end Collector.Workers
