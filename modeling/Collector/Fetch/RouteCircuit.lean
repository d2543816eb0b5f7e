import Collector.Fetch.RouteFailures

/-!
The circuit breaker of a route over whole runs. The row and the log change only in the moves of the
transactions, so the counter is the number of failures since the last reset, the revision counts
the audited changes of the state, and the circuit opens at the failure that reaches the threshold.
-/

namespace Collector.Fetch
open Collector.Lib Collector.Persistence
open Collector.Contracts (uuidText)

variable {routeId : Uuid}

/-- The `record_route_failure` calls that committed since the last `reset_route_failures` did. -/
def failuresSinceReset : List RouteEnded → Nat
  | [] => 0
  | ⟨.recordFailure _, .ok _, _, _⟩ :: older => failuresSinceReset older + 1
  | ⟨.resetFailures _, .ok _, _, _⟩ :: _ => 0
  | _ :: older => failuresSinceReset older

/-- The audited changes of the state of the route. -/
def stateChanges (routeId : Uuid) (audit : List AuditRow) : List AuditRow := audit.filter (stateChange routeId)

/-- The row as `upsert_route` creates it: no failure, revision one and no change of the state yet. -/
structure Created (routeId : Uuid) (db : FetchDb) : Prop where
  row : ∃ route, db.routes.find? routeId = some route ∧ route.consecutiveFailures = 0 ∧ route.revision = 1
  unchanged : stateChanges routeId db.audit = []

/-- What a `record_route_failure` that committed did: it counted, and it opened the circuit with one
audit row, whose revision is one above the row's, or left the state, the revision and the log alone. -/
def FailureCounted (routeId : Uuid) (f : RouteFailure) (a : RouteAnswer) (before after : FetchDb) : Prop :=
  ∃ route next, before.routes.find? routeId = some route ∧ after.routes.find? routeId = some next ∧
    next.consecutiveFailures = route.consecutiveFailures + 1 ∧
    if f.threshold ≤ route.consecutiveFailures + 1 ∧ (route.state = .healthy ∨ route.state = .degraded) then
      next.state = .circuitOpen ∧ next.revision = route.revision + 1 ∧ a = .state .circuitOpen ∧
        ∃ row, after.audit = before.audit ++ [row] ∧ row.action = "source_route.circuit_open" ∧
          (row.beforeState.bind (·.lookup "revision")) = some (.int route.revision) ∧
          (row.afterState.bind (·.lookup "revision")) = some (.int (route.revision + 1))
    else next.state = route.state ∧ next.revision = route.revision ∧ a = .state route.state ∧
      after.audit = before.audit

/-- What holds of the route after a run. -/
structure CircuitKept (routeId : Uuid) (history : List RouteEnded) (view : RouteView) : Prop where
  row : ∃ route, view.route = some route ∧
    route.consecutiveFailures = failuresSinceReset history ∧
    route.revision = 1 + (stateChanges routeId view.audit).length
  failures : ∀ entry ∈ history, ∀ f a, entry.call = .recordFailure f → entry.outcome = .ok a →
    FailureCounted routeId f a entry.before entry.after

theorem stateChanges_append (audit : List AuditRow) {row : AuditRow} (change : stateChange routeId row = true) :
    (stateChanges routeId (audit ++ [row])).length = (stateChanges routeId audit).length + 1 := by
  rw [stateChanges, List.filter_append, List.length_append, List.filter_singleton, change]
  rfl

theorem opens_iff {f : RouteFailure} {route : SourceRoute} : f.opens route = true ↔
    f.threshold ≤ route.consecutiveFailures + 1 ∧ (route.state = .healthy ∨ route.state = .degraded) := by
  rw [RouteFailure.opens, Bool.and_eq_true, decide_eq_true_eq]
  apply and_congr_right'
  cases route.state <;> simp [RouteState.openable]

theorem counted_of_move {entry : RouteEnded} {f : RouteFailure} {a : RouteAnswer}
    (call : entry.call = .recordFailure f) (committed : entry.outcome = .ok a)
    (move : RouteMove routeId entry.call entry.outcome (routeView routeId entry.before)
      (routeView routeId entry.after)) : FailureCounted routeId f a entry.before entry.after := by
  rw [call, committed] at move
  cases move with
  | raised e outcome => cases outcome
  | counted f' route same answer found closed left =>
    cases same
    cases answer
    refine ⟨route, _, found, congrArg RouteView.route left, rfl, ?_⟩
    rw [if_neg (by rw [← opens_iff, closed]; exact Bool.false_ne_true)]
    exact ⟨rfl, rfl, rfl, congrArg RouteView.audit left⟩
  | opened f' route same answer found opens left =>
    cases same
    cases answer
    refine ⟨route, _, found, congrArg RouteView.route left, rfl, ?_⟩
    rw [if_pos (opens_iff.mp opens)]
    exact ⟨rfl, rfl, rfl, _, congrArg RouteView.audit left, rfl, rfl, rfl⟩
  | reset _ _ same => cases same
  | set _ _ _ _ _ _ _ _ _ _ same => cases same

/-- One move keeps the count, the revision and what is known of the failures. -/
theorem CircuitKept.next {history : List RouteEnded} {entry : RouteEnded}
    (kept : CircuitKept routeId history (routeView routeId entry.before))
    (move : RouteMove routeId entry.call entry.outcome (routeView routeId entry.before)
      (routeView routeId entry.after)) :
    CircuitKept routeId (entry :: history) (routeView routeId entry.after) := by
  constructor
  · obtain ⟨route, found, count, revision⟩ := kept.row
    obtain ⟨call, outcome, before, after⟩ := entry
    dsimp only at *
    cases move with
    | raised e raised same =>
      rw [same]
      refine ⟨route, found, ?_, revision⟩
      rw [count, raised]
      cases call <;> rfl
    | counted f route' called answer found' closed left =>
      rw [found, Option.some.injEq] at found'
      subst found'
      rw [left]
      refine ⟨_, rfl, ?_, revision⟩
      rw [called, answer]
      show route.consecutiveFailures + 1 = ((failuresSinceReset history + 1 : Nat) : Int)
      rw [count]
      push_cast
      rfl
    | opened f route' called answer found' opens left =>
      rw [found, Option.some.injEq] at found'
      subst found'
      rw [left]
      refine ⟨_, rfl, ?_, ?_⟩
      · rw [called, answer]
        show route.consecutiveFailures + 1 = ((failuresSinceReset history + 1 : Nat) : Int)
        rw [count]
        push_cast
        rfl
      · have change : stateChange routeId (f.audit routeId (route.countFailure f.now)) = true := by
          simp [stateChange, RouteFailure.audit]
        show route.revision + 1 = _
        rw [stateChanges_append _ change, revision]
        push_cast
        omega
    | reset now route' called answer found' left =>
      rw [found, Option.some.injEq] at found'
      subst found'
      rw [left]
      refine ⟨_, rfl, ?_, revision⟩
      rw [called, answer]
      rfl
    | set _ _ _ _ _ _ _ route' next row called answer found' same moved change left =>
      rw [found, Option.some.injEq] at found'
      subst found'
      rw [left]
      refine ⟨next, rfl, ?_, ?_⟩
      · rw [same, count, called, answer]
        rfl
      · rw [stateChanges_append _ change, moved, revision]
        push_cast
        omega
  · intro other member f a called committed
    rcases List.mem_cons.mp member with rfl | member
    · exact counted_of_move called committed move
    · exact kept.failures other member f a called committed

/-- In every interleaving of transactions on a route, from its creation on, its failure counter, its
revision and its circuit follow from the transactions that committed. -/
theorem route_circuit_breaker {start : FetchDb} (created : Created routeId start)
    {history : List RouteEnded} {s : System FetchDb FetchLock DbError RouteAnswer RouteCall}
    (run : System.Run (routeProgram routeId) start history s) :
    CircuitKept routeId history (routeView routeId s.committed) := by
  apply watched_serial (route_verified routeId) trivial (Q := CircuitKept routeId) _ _ run
  · obtain ⟨route, found, zero, one⟩ := created.row
    refine ⟨⟨route, found, zero, ?_⟩, fun _ member => absurd member List.not_mem_nil⟩
    show route.revision = 1 + ((stateChanges routeId start.audit).length : Int)
    rw [created.unchanged, one]
    rfl
  · intro history entry kept _ _ move
    exact kept.next move

namespace Sample

/-- A route as it is created, with an empty log. -/
def routeDb : FetchDb where
  sources := ∅
  policies := ∅
  routes := (∅ : Table SourceRoute.id).insert ⟨3, 1, "http", .healthy, none, 0, none, none, none, 1, 0⟩
  fetches := []
  rawObjects := []
  jobs := []
  audit := []

def failure (now : Time) : RouteCall :=
  .recordFailure ⟨"fetcher", "timeout", 2, some 60, none, 9, now⟩

def failureRun : List RouteEnded × FetchDb :=
  System.serially (routeProgram 3) routeDb [failure 1, .resetFailures 2, failure 3, failure 4, failure 5]

end Sample

/-- The third failure is the second since the reset: it opens the circuit, once. -/
theorem route_circuit_opens_once :
    CircuitKept 3 Sample.failureRun.1 (routeView 3 Sample.failureRun.2) ∧
      (Sample.failureRun.2.routes.find? 3).map (fun route => (route.state, route.consecutiveFailures, route.revision))
        = some (.circuitOpen, 3, 2) ∧ Sample.failureRun.2.audit.length = 1 := by
  refine ⟨?_, by decide +kernel, by decide +kernel⟩
  exact route_circuit_breaker (s := System.idle Sample.failureRun.2)
    ⟨⟨_, rfl, rfl, rfl⟩, rfl⟩ (System.run_serially (routeProgram 3) Sample.routeDb _)

end Collector.Fetch
