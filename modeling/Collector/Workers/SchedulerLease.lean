import Mathlib.Logic.Function.Basic
import Collector.Lib.LabelledRuns

/-!
The schedulers and the advisory lock that makes one of them the singleton. The lock belongs to a session
of the server, which a scheduler keeps out of its pool while it is active. A query is answered at the
server first and its answer read later; in between anything may happen, and either may fail. The
environment may end any session, which frees its lock.
-/

namespace Collector.Workers.Singleton
open Collector.Lib

/-- A session of the server, by the process that opened it and its number there. -/
structure Session where
  process : Nat
  number : Nat
  deriving DecidableEq

/-- The advisory lock of one key. A session may take it several times. -/
structure Server where
  holder : Option Session
  depth : Nat
  dead : Session → Bool

namespace Server

/-- `pg_try_advisory_lock`. -/
def tryLock (server : Server) (s : Session) : Bool × Server :=
  if server.holder = none then (true, { server with holder := some s, depth := 1 })
  else if server.holder = some s then (true, { server with depth := server.depth + 1 })
  else (false, server)

/-- `pg_advisory_unlock`. -/
def unlock (server : Server) (s : Session) : Bool × Server :=
  if server.holder = some s then
    if server.depth ≤ 1 then (true, { server with holder := none, depth := 0 })
    else (true, { server with depth := server.depth - 1 })
  else (false, server)

/-- The end of a session on the side of the server. -/
def die (server : Server) (s : Session) : Server :=
  { server with
    dead := Function.update server.dead s true
    holder := if server.holder = some s then none else server.holder }

end Server

/-- Who waits for an answer of `is_held`: the loop, or a call that may be cancelled meanwhile. -/
inductive Asker where
  | loop
  | tick
  deriving DecidableEq

/-- A query under the lock `_lease_check`, with the server's answer once there is one. -/
structure Check where
  asker : Asker
  session : Session
  answer : Option Bool

/-- Where `run` stands. Tick 0 is the maintenance tick. -/
inductive Pc where
  | top
  | connecting
  | locking (s : Session)
  | lockAnswered (s : Session) (granted : Bool)
  | asking (s : Session)
  | turn (i : Nat)
  | checking (before : Option Nat)
  | starting (i : Nat)
  | running (i : Nat)
  | sleeping
  | stopping
  | unlocking (s : Session)
  | unlocked (s : Session) (confirmed : Bool)
  | ended

structure Scheduler where
  active : Bool
  connection : Option Session
  pc : Pc
  pool : List Session
  opened : Nat
  check : Option Check

def Scheduler.fresh : Scheduler := ⟨false, none, .top, [], 0, none⟩

/-- What is seen of a step: the start of a tick, or a session that goes back to the pool although its
lock may have been granted. -/
inductive Event where
  | tick (i : Nat)
  | leftLocked

/-- The session goes back to the pool, unless the driver took the failure for a broken connection. -/
def back (kept : Bool) (s : Session) (pool : List Session) : List Session :=
  if kept then s :: pool else pool

/-- The steps of scheduler `me`, which has `ticks` ticks. -/
inductive Move (me ticks : Nat) :
    Server × Scheduler → Option Event → Server × Scheduler → Prop where
  -- `_try_activate`
  | alreadyHeld {server : Server} {p : Scheduler} (here : p.pc = .top) (idle : p.active = false)
    (kept : p.connection.isSome) : Move me ticks (server, p) none
      (server, { p with active := true, pc := .turn 0 })
  | connects {server : Server} {p : Scheduler} (here : p.pc = .top) (idle : p.active = false)
    (bare : p.connection = none) : Move me ticks (server, p) none (server, { p with pc := .connecting })
  | reuses {server : Server} {p : Scheduler} {s : Session} (here : p.pc = .connecting)
    (pooled : s ∈ p.pool) : Move me ticks (server, p) none
      (server, { p with pc := .locking s, pool := p.pool.erase s })
  | opens {server : Server} {p : Scheduler} (here : p.pc = .connecting) :
    Move me ticks (server, p) none
      (server, { p with pc := .locking ⟨me, p.opened⟩, opened := p.opened + 1 })
  | connectFails {server : Server} {p : Scheduler} (here : p.pc = .connecting) :
    Move me ticks (server, p) none (server, { p with pc := .sleeping })
  | locks {server : Server} {p : Scheduler} {s : Session} (here : p.pc = .locking s)
    (alive : server.dead s = false) : Move me ticks (server, p) none
      ((server.tryLock s).2, { p with pc := .lockAnswered s (server.tryLock s).1 })
  | lockFails {server : Server} {p : Scheduler} {s : Session} (kept : Bool) (here : p.pc = .locking s) :
    Move me ticks (server, p) none (server, { p with pc := .sleeping, pool := back kept s p.pool })
  | lockReplyLost {server : Server} {p : Scheduler} {s : Session} {granted : Bool} (kept : Bool)
    (here : p.pc = .lockAnswered s granted) : Move me ticks (server, p)
      (if kept && granted then some .leftLocked else none)
      (server, { p with pc := .sleeping, pool := back kept s p.pool })
  | refused {server : Server} {p : Scheduler} {s : Session} (here : p.pc = .lockAnswered s false) :
    Move me ticks (server, p) none (server, { p with pc := .sleeping, pool := s :: p.pool })
  | granted {server : Server} {p : Scheduler} {s : Session} (here : p.pc = .lockAnswered s true) :
    Move me ticks (server, p) none (server, { p with pc := .asking s })
  | acquired {server : Server} {p : Scheduler} {s : Session} (here : p.pc = .asking s)
    (alive : server.dead s = false) : Move me ticks (server, p) none
      (server, { p with active := true, connection := some s, pc := .turn 0 })
  | pidFails {server : Server} {p : Scheduler} {s : Session} (kept : Bool) (here : p.pc = .asking s) :
    Move me ticks (server, p) (if kept then some .leftLocked else none)
      (server, { p with pc := .sleeping, pool := back kept s p.pool })
  -- `run` and `_run_due_ticks`
  | wakes {server : Server} {p : Scheduler} (here : p.pc = .sleeping) :
    Move me ticks (server, p) none (server, { p with pc := .top })
  | checks {server : Server} {p : Scheduler} (here : p.pc = .top) (active : p.active = true) :
    Move me ticks (server, p) none (server, { p with pc := .checking none })
  | notDue {server : Server} {p : Scheduler} {i : Nat} (here : p.pc = .turn i) (more : i < ticks) :
    Move me ticks (server, p) none (server, { p with pc := .turn (i + 1) })
  | maintains {server : Server} {p : Scheduler} (here : p.pc = .turn 0) :
    Move me ticks (server, p) none (server, { p with pc := .starting 0 })
  | due {server : Server} {p : Scheduler} {i : Nat} (here : p.pc = .turn (i + 1)) (more : i + 1 < ticks) :
    Move me ticks (server, p) none (server, { p with pc := .checking (some (i + 1)) })
  | passEnds {server : Server} {p : Scheduler} {i : Nat} (here : p.pc = .turn i) :
    Move me ticks (server, p) none (server, { p with pc := .sleeping })
  | starts {server : Server} {p : Scheduler} {i : Nat} (here : p.pc = .starting i) :
    Move me ticks (server, p) (some (.tick i)) (server, { p with pc := .running i })
  | tickEnds {server : Server} {p : Scheduler} {i : Nat} (here : p.pc = .running i) :
    Move me ticks (server, p) none (server, { p with pc := .turn (i + 1) })
  -- `_lease_held`: one query at a time, which outlives a cancelled tick
  | nothingHeld {server : Server} {p : Scheduler} {before : Option Nat} (here : p.pc = .checking before)
    (free : p.check = none) (bare : p.connection = none) : Move me ticks (server, p) none
      (server, { p with active := false, pc := .sleeping })
  | loopAsks {server : Server} {p : Scheduler} {before : Option Nat} {s : Session}
    (here : p.pc = .checking before) (free : p.check = none) (kept : p.connection = some s) :
    Move me ticks (server, p) none (server, { p with check := some ⟨.loop, s, none⟩ })
  | tickAsks {server : Server} {p : Scheduler} {i : Nat} {s : Session} (here : p.pc = .running i)
    (free : p.check = none) (kept : p.connection = some s) : Move me ticks (server, p) none
      (server, { p with check := some ⟨.tick, s, none⟩ })
  | answers {server : Server} {p : Scheduler} {asker : Asker} {s : Session}
    (asked : p.check = some ⟨asker, s, none⟩) (alive : server.dead s = false) :
    Move me ticks (server, p) none
      (server, { p with check := some ⟨asker, s, some (server.holder = some s)⟩ })
  | checkFails {server : Server} {p : Scheduler} {asker : Asker} {s : Session} {answer : Option Bool}
    (asked : p.check = some ⟨asker, s, answer⟩) : Move me ticks (server, p) none
      (server, { p with check := some ⟨asker, s, some false⟩ })
  | held {server : Server} {p : Scheduler} {s : Session} (here : p.pc = .checking none)
    (answered : p.check = some ⟨.loop, s, some true⟩) : Move me ticks (server, p) none
      (server, { p with check := none, pc := .turn 0 })
  | heldBefore {server : Server} {p : Scheduler} {i : Nat} {s : Session}
    (here : p.pc = .checking (some i)) (answered : p.check = some ⟨.loop, s, some true⟩) :
    Move me ticks (server, p) none (server, { p with check := none, pc := .starting i })
  | lost {server : Server} {p : Scheduler} {before : Option Nat} {s : Session}
    (here : p.pc = .checking before) (answered : p.check = some ⟨.loop, s, some false⟩) :
    Move me ticks (server, p) none
      (server, { p with active := false, connection := none, check := none, pc := .sleeping })
  | tickAnswered {server : Server} {p : Scheduler} {s : Session} {answer : Bool}
    (answered : p.check = some ⟨.tick, s, some answer⟩) : Move me ticks (server, p) none
      (server, { p with check := none, connection := if answer then p.connection else none })
  -- the end of `run`, or its cancellation while it waits for something
  | stops {server : Server} {p : Scheduler} (here : p.pc = .top) :
    Move me ticks (server, p) none (server, { p with active := false, pc := .stopping })
  | aborts {server : Server} {p : Scheduler}
    (here : p.pc = .sleeping ∨ (∃ i, p.pc = .running i) ∨ ∃ before, p.pc = .checking before) :
    Move me ticks (server, p) none (server, { p with
      active := false, pc := .stopping, check := p.check.map fun check => { check with asker := .tick } })
  | nothingToRelease {server : Server} {p : Scheduler} (here : p.pc = .stopping) (free : p.check = none)
    (bare : p.connection = none) : Move me ticks (server, p) none (server, { p with pc := .ended })
  | releases {server : Server} {p : Scheduler} {s : Session} (here : p.pc = .stopping)
    (free : p.check = none) (kept : p.connection = some s) : Move me ticks (server, p) none
      (server, { p with pc := .unlocking s })
  | unlocks {server : Server} {p : Scheduler} {s : Session} (here : p.pc = .unlocking s)
    (alive : server.dead s = false) : Move me ticks (server, p) none
      ((server.unlock s).2, { p with pc := .unlocked s (server.unlock s).1 })
  | unlockFails {server : Server} {p : Scheduler} {s : Session} (here : p.pc = .unlocking s) :
    Move me ticks (server, p) none (server, { p with pc := .unlocked s false })
  | unlockReplyLost {server : Server} {p : Scheduler} {s : Session} {confirmed : Bool}
    (here : p.pc = .unlocked s confirmed) : Move me ticks (server, p) none
      (server, { p with pc := .unlocked s false })
  | released {server : Server} {p : Scheduler} {s : Session} {confirmed : Bool}
    (here : p.pc = .unlocked s confirmed) : Move me ticks (server, p) none
      (server, { p with connection := none, pc := .ended, pool := back confirmed s p.pool })

/-- Any number of schedulers at one server. -/
structure World where
  server : Server
  procs : Nat → Scheduler

def World.start : World := ⟨⟨none, 0, fun _ => false⟩, fun _ => .fresh⟩

inductive Step (ticks : Nat) : World → Option (Nat × Event) → World → Prop where
  | moves {w : World} {me : Nat} {event : Option Event} {server : Server} {p : Scheduler}
    (move : Move me ticks (w.server, w.procs me) event (server, p)) :
    Step ticks w (event.map fun e => (me, e)) ⟨server, Function.update w.procs me p⟩
  | dies {w : World} (s : Session) : Step ticks w none { w with server := w.server.die s }

/-- The session that a scheduler keeps or is about to keep. -/
def Scheduler.session (p : Scheduler) : Option Session :=
  match p.pc with
  | .locking s | .lockAnswered s _ | .asking s => some s
  | _ => p.connection

/-- The lock is held by the session of the scheduler. -/
def Scheduler.Holds (server : Server) (p : Scheduler) : Prop :=
  ∃ s, p.session = some s ∧ server.holder = some s

def World.Holds (w : World) (me : Nat) : Prop := (w.procs me).Holds w.server

end Collector.Workers.Singleton
