import Collector.Fetch.Records
import Collector.Lib.WatchedRow

/-!
The failure counter of a route and its circuit. A failure is counted by one `UPDATE` that returns
the row as it left it; the second `UPDATE`, which opens the circuit, and the audit row follow under
the lock of the first. So a transaction on the route takes the row and the log, as they are
committed when it ends, through one move.
-/

namespace Collector.Fetch
open Collector.Lib Collector.Persistence
open Collector.Contracts (uuidText)

/-- The parameters of `record_route_failure`. -/
structure RouteFailure where
  actor : String
  reason : String
  threshold : Int
  circuitOpenFor : Option Time
  requestId : Option String
  auditId : Uuid
  now : Time
  deriving DecidableEq, Repr

/-- `CIRCUIT_OPENABLE_ROUTE_STATES`. -/
def RouteState.openable : RouteState → Bool
  | .healthy | .degraded => true
  | .circuitOpen | .unsupported => false

/-- The values of the counting `UPDATE`. -/
def SourceRoute.countFailure (now : Time) (route : SourceRoute) : SourceRoute :=
  { route with
    consecutiveFailures := route.consecutiveFailures + 1, lastFailureAt := some now, updatedAt := now }

def RouteFailure.openUntil (f : RouteFailure) : Option Time := f.circuitOpenFor.map fun wait => f.now + wait

/-- `source_route.circuit_open` about the row that was counted. -/
def RouteFailure.audit (routeId : Uuid) (f : RouteFailure) (counted : SourceRoute) : AuditRow where
  auditId := f.auditId
  createdAt := f.now
  actor := f.actor
  action := "source_route.circuit_open"
  resourceType := "source_route"
  resourceId := uuidText routeId
  beforeState := some [("state", .text counted.state.value), ("revision", .int counted.revision)]
  afterState := some [
    ("state", .text RouteState.circuitOpen.value), ("revision", .int (counted.revision + 1)),
    ("consecutive_failures", .int counted.consecutiveFailures), ("threshold", .int f.threshold),
    ("circuit_open_until", auditTime f.openUntil), ("reason", .text f.reason)]
  requestId := f.requestId
  idempotencyKey := none

/-- `record_route_failure`. -/
def recordRouteFailure (routeId : Uuid) (f : RouteFailure) : FetchTxn RouteState := do
  .ensure (!blank (some f.actor)) (.invalidValue "actor")
  .ensure (!blank (some f.reason)) (.invalidValue "reason")
  .ensure (decide (1 ≤ f.threshold)) (.valueError "threshold")
  .ensure (f.circuitOpenFor.all fun wait => decide (0 < wait)) (.valueError "circuit_open_for")
  match ← updateRoute routeId (fun _ => true) (SourceRoute.countFailure f.now) with
  | none => .raise (.routeNotFound routeId)
  | some counted =>
    if counted.consecutiveFailures < f.threshold ∨ counted.state.openable = false then
      return counted.state
    else
      let _ ← updateRoute routeId (fun _ => true)
        (SourceRoute.setState .circuitOpen f.reason f.openUntil f.now)
      let _ ← appendAuditRow FetchDb.audit (fun row db => { db with audit := db.audit ++ [row] })
        (.integrityError "audit_log") (f.audit routeId counted)
      return .circuitOpen

/-- The transactions on the state of one route. -/
inductive RouteCall where
  | recordFailure (f : RouteFailure)
  | resetFailures (now : Time)
  | setState (state : RouteState) (expectedRevision : Int) (actor reason : String) (d : Drawn)
      (circuitOpenUntil : Option Time) (requestId : Option String)
  deriving DecidableEq, Repr

inductive RouteAnswer where
  | state (state : RouteState)
  | route (route : SourceRoute)
  deriving DecidableEq, Repr

def routeProgram (routeId : Uuid) : RouteCall → FetchTxn RouteAnswer
  | .recordFailure f => .state <$> recordRouteFailure routeId f
  | .resetFailures now => .state <$> resetRouteFailures routeId now
  | .setState state expectedRevision actor reason d circuitOpenUntil requestId =>
    .route <$> setRouteState routeId state expectedRevision actor reason d circuitOpenUntil requestId

abbrev RouteEnded := Ended FetchDb DbError RouteAnswer RouteCall

/-! ## The moves of the row -/

/-- The row of the route and the audit log. -/
structure RouteView where
  route : Option SourceRoute
  audit : List AuditRow

def routeView (routeId : Uuid) (db : FetchDb) : RouteView := ⟨db.routes.find? routeId, db.audit⟩

/-- The failure that is counted opens the circuit. -/
def RouteFailure.opens (f : RouteFailure) (route : SourceRoute) : Bool :=
  decide (f.threshold ≤ route.consecutiveFailures + 1) && route.state.openable

def RouteFailure.opened (f : RouteFailure) (route : SourceRoute) : SourceRoute :=
  (route.countFailure f.now).setState .circuitOpen f.reason f.openUntil f.now

/-- An audited change of the state of the route. -/
def stateChange (routeId : Uuid) (row : AuditRow) : Bool :=
  decide (row.resourceType = "source_route" ∧ row.resourceId = uuidText routeId) &&
    decide (row.action = "source_route.set_state" ∨ row.action = "source_route.circuit_open")

inductive RouteMove (routeId : Uuid) (call : RouteCall) (outcome : Except DbError RouteAnswer)
    (before after : RouteView) : Prop
  | raised (e : DbError) : outcome = .error e → after = before → RouteMove routeId call outcome before after
  | counted (f : RouteFailure) (route : SourceRoute) : call = .recordFailure f →
      outcome = .ok (.state route.state) → before.route = some route → f.opens route = false →
      after = ⟨some (route.countFailure f.now), before.audit⟩ → RouteMove routeId call outcome before after
  | opened (f : RouteFailure) (route : SourceRoute) : call = .recordFailure f →
      outcome = .ok (.state .circuitOpen) → before.route = some route → f.opens route = true →
      after = ⟨some (f.opened route), before.audit ++ [f.audit routeId (route.countFailure f.now)]⟩ →
      RouteMove routeId call outcome before after
  | reset (now : Time) (route : SourceRoute) : call = .resetFailures now →
      outcome = .ok (.state route.state) → before.route = some route →
      after = ⟨some (route.resetFailures now), before.audit⟩ → RouteMove routeId call outcome before after
  | set (state : RouteState) (expectedRevision : Int) (actor reason : String) (d : Drawn)
      (circuitOpenUntil : Option Time) (requestId : Option String) (route next : SourceRoute)
      (row : AuditRow) :
      call = .setState state expectedRevision actor reason d circuitOpenUntil requestId →
      outcome = .ok (.route next) → before.route = some route → next.consecutiveFailures = route.consecutiveFailures →
      next.revision = route.revision + 1 → stateChange routeId row = true →
      after = ⟨some next, before.audit ++ [row]⟩ → RouteMove routeId call outcome before after

/-! ## Every transaction makes one move -/

section Moves
variable {routeId : Uuid}

/-- The writes of `updateRoute`. -/
def putRoute (route : SourceRoute) (db : FetchDb) : FetchDb := { db with routes := db.routes.put route }

def addAudit (row : AuditRow) (db : FetchDb) : FetchDb := { db with audit := db.audit ++ [row] }

theorem find?_putRoute {db : FetchDb} {route next : SourceRoute}
    (known : db.routes.find? routeId = some route) (same : next.id = route.id) :
    (putRoute next db).routes.find? routeId = some next := by
  obtain ⟨_, key⟩ := (Table.find?_eq_some _ _ _).mp known
  have named : next.id = routeId := same.trans key
  have found := db.routes.find?_put next (named ▸ known) routeId
  rwa [if_pos named.symm] at found

theorem wp_updateRoute {β : Type} {d : Discipline FetchDb FetchLock} {Q : Ending FetchDb FetchLock DbError β}
    {matching : SourceRoute → Bool} {change : SourceRoute → SourceRoute}
    {f : Option SourceRoute → FetchTxn β} {held : List (FetchLock × LockMode)}
    {pending : FetchDb → FetchDb} {c : FetchDb}
    (absent : ∀ held' c', d.inv c' → d.wp Q (f none) held' pending c')
    (refused : ∀ e held' c', d.inv c' → Q (.error e) held' pending c')
    (found : ∀ c' c'' route, d.inv c'' → d.rely held c c' →
      d.rely ((.route routeId, .noKeyUpdate) :: held) c' c'' →
      (pending c').routes.find? routeId = some route → matching route = true →
      d.wp Q (f (some (change route))) ((.route routeId, .noKeyUpdate) :: held)
        (putRoute (change route) ∘ pending) c'') :
    d.wp Q (updateRoute routeId matching change >>= f) held pending c := by
  rw [updateRoute, Txn.bind_assoc]
  apply Discipline.wp_selectLocked
  · intro held' c' _ valid' _
    exact absent held' c' valid'
  · intro c₁ c₂ route _ valid₂ moved₁ moved₂ looked
    obtain ⟨known, matches_⟩ := Option.filter_eq_some_iff.mp looked
    change d.wp Q ((Txn.ensure _ _ >>= fun _ => (Txn.modify _ >>= fun _ => pure _)) >>= f) _ _ _
    rw [Txn.bind_assoc, Discipline.wp_ensure]
    refine ⟨fun _ => ?_, fun _ => refused _ _ _ valid₂⟩
    rw [Txn.bind_assoc, Discipline.wp_modify]
    intro c₃ valid₃ moved₃
    exact found c₁ c₃ route valid₃ moved₁ (d.trans _ _ _ _ moved₂ moved₃) known matches_

/-- The `UPDATE` of a row that the transaction has already locked. -/
theorem wp_updateRoute_again {β : Type} {d : Discipline FetchDb FetchLock}
    {Q : Ending FetchDb FetchLock DbError β} {change : SourceRoute → SourceRoute} {route : SourceRoute}
    {f : Option SourceRoute → FetchTxn β} {held : List (FetchLock × LockMode)}
    {pending : FetchDb → FetchDb} {c : FetchDb} (valid : d.inv c)
    (known : ∀ c', d.inv c' → d.rely held c c' → (pending c').routes.find? routeId = some route)
    (refused : ∀ e held' c', d.inv c' → Q (.error e) held' pending c')
    (next : ∀ c', d.inv c' → d.rely held c c' →
      d.wp Q (f (some (change route))) ((.route routeId, .noKeyUpdate) :: held)
        (putRoute (change route) ∘ pending) c') :
    d.wp Q (updateRoute routeId (fun _ => true) change >>= f) held pending c := by
  rw [updateRoute, Txn.bind_assoc]
  apply Discipline.wp_selectLocked_known valid (a := route)
  · intro c' valid' moved'
    rw [known c' valid' moved']
    rfl
  · intro c₁ valid₁ moved₁
    change d.wp Q ((Txn.ensure _ _ >>= fun _ => (Txn.modify _ >>= fun _ => pure _)) >>= f) _ _ _
    rw [Txn.bind_assoc, Discipline.wp_ensure]
    refine ⟨fun _ => ?_, fun _ => refused _ _ _ valid₁⟩
    rw [Txn.bind_assoc, Discipline.wp_modify]
    intro c₂ valid₂ moved₂
    exact next c₂ valid₂ (d.trans _ _ _ _ moved₁ (d.mono _ _ _ _ (List.subset_cons_self _ _) moved₂))

/-- What a transaction on the route can count on: nothing without the row, and the row and the log
with it. -/
abbrev routeWatch (routeId : Uuid) : Discipline FetchDb FetchLock :=
  watching (routeView routeId) (.route routeId) fun _ => True

abbrev RoutePost (routeId : Uuid) : RouteCall → Except DbError RouteAnswer → FetchDb → FetchDb → Prop :=
  Moved (routeView routeId) (fun _ => True) (RouteMove routeId)

theorem route_refused {call : RouteCall} {e : DbError} {c : FetchDb} :
    RoutePost routeId call (.error e) c c := ⟨trivial, .raised e rfl rfl⟩

theorem route_ends {call : RouteCall} {a : RouteAnswer} {held : List (FetchLock × LockMode)}
    {pending : FetchDb → FetchDb} {c : FetchDb} (locked : (.route routeId, .noKeyUpdate) ∈ held)
    (move : RouteMove routeId call (.ok a) (routeView routeId c) (routeView routeId (pending c))) :
    (routeWatch routeId).Ends (RoutePost routeId call) (.ok a) held pending c :=
  ends_of_move (fun _ _ _ _ _ _ => trivial) trivial (.inr ⟨_, locked, .inl rfl⟩) move

theorem view_eq {a b : FetchDb} {held : List (FetchLock × LockMode)}
    (moved : (routeWatch routeId).rely held a b) (locked : (.route routeId, .noKeyUpdate) ∈ held) :
    routeView routeId b = routeView routeId a := moved (.of_writer locked (.inl rfl))

theorem resetFailures_moves (now : Time) (c : FetchDb) :
    (routeWatch routeId).wp ((routeWatch routeId).Ends (RoutePost routeId (.resetFailures now)))
      (routeProgram routeId (.resetFailures now)) [] id c := by
  rw [routeProgram, Discipline.wp_map]
  unfold resetRouteFailures
  apply wp_updateRoute
  · intro held c' _
    exact route_refused
  · intro e held c' _
    exact route_refused
  · intro c₁ c₂ route _ _ moved known _
    have view := view_eq moved List.mem_cons_self
    apply route_ends List.mem_cons_self
    have there : c₂.routes.find? routeId = some route := (congrArg RouteView.route view).trans known
    apply RouteMove.reset now route rfl rfl there
    exact congrArg (RouteView.mk · c₂.audit) (find?_putRoute there rfl)

theorem setState_moves (state : RouteState) (expectedRevision : Int) (actor reason : String) (d : Drawn)
    (circuitOpenUntil : Option Time) (requestId : Option String) (c : FetchDb) :
    (routeWatch routeId).wp ((routeWatch routeId).Ends
      (RoutePost routeId (.setState state expectedRevision actor reason d circuitOpenUntil requestId)))
      (routeProgram routeId (.setState state expectedRevision actor reason d circuitOpenUntil requestId))
      [] id c := by
  rw [routeProgram, Discipline.wp_map]
  unfold setRouteState
  rw [Discipline.wp_ensure]
  refine ⟨fun _ => ?_, fun _ => route_refused⟩
  rw [Discipline.wp_ensure]
  refine ⟨fun _ => ?_, fun _ => route_refused⟩
  rw [Discipline.wp_view]
  intro c₁ _ _
  apply wp_updateRoute
  · intro held c' _
    rw [Discipline.wp_view]
    intro c₂ _ _
    split <;> exact route_refused
  · intro e held c' _
    exact route_refused
  · intro c₂ c₃ route valid₃ _ moved₃ known _
    apply wp_appendAuditRow rfl
    · intro c₄ _
      exact route_refused
    · intro c₄ _ moved₄
      have view := view_eq ((routeWatch routeId).trans _ _ _ _ moved₃ moved₄) List.mem_cons_self
      have there : c₄.routes.find? routeId = some route := (congrArg RouteView.route view).trans known
      apply route_ends List.mem_cons_self
      refine RouteMove.set state expectedRevision actor reason d circuitOpenUntil requestId route _ _ rfl rfl
        there rfl rfl ?_
        (congrArg (RouteView.mk · (c₄.audit ++ _)) (find?_putRoute there rfl))
      simp [stateChange]

theorem recordFailure_moves (f : RouteFailure) (c : FetchDb) :
    (routeWatch routeId).wp ((routeWatch routeId).Ends (RoutePost routeId (.recordFailure f)))
      (routeProgram routeId (.recordFailure f)) [] id c := by
  rw [routeProgram, Discipline.wp_map]
  unfold recordRouteFailure
  rw [Discipline.wp_ensure]
  refine ⟨fun _ => ?_, fun _ => route_refused⟩
  rw [Discipline.wp_ensure]
  refine ⟨fun _ => ?_, fun _ => route_refused⟩
  rw [Discipline.wp_ensure]
  refine ⟨fun _ => ?_, fun _ => route_refused⟩
  rw [Discipline.wp_ensure]
  refine ⟨fun _ => ?_, fun _ => route_refused⟩
  apply wp_updateRoute
  · intro held c' _
    exact route_refused
  · intro e held c' _
    exact route_refused
  intro c₁ c₂ route _ _ moved₂ known _
  have view₂ := view_eq moved₂ List.mem_cons_self
  have there₂ : c₂.routes.find? routeId = some route := (congrArg RouteView.route view₂).trans known
  dsimp only
  split
  · rename_i closed
    apply route_ends List.mem_cons_self
    refine RouteMove.counted f route rfl rfl there₂ ?_
      (congrArg (RouteView.mk · c₂.audit) (find?_putRoute there₂ rfl))
    simp only [RouteFailure.opens, Bool.and_eq_false_iff, decide_eq_false_iff_not, not_le]
    exact closed
  · rename_i opens
    have reached : f.opens route = true := by
      rw [not_or, not_lt, Bool.not_eq_false] at opens
      simp only [RouteFailure.opens, Bool.and_eq_true, decide_eq_true_eq]
      exact opens
    -- The second `UPDATE` finds the row as the first one left it: the lock is still held.
    have still (c' : FetchDb) (moved : (routeWatch routeId).rely [(.route routeId, .noKeyUpdate)] c₂ c') :
        c'.routes.find? routeId = some route :=
      (congrArg RouteView.route (view_eq moved List.mem_cons_self)).trans there₂
    apply wp_updateRoute_again trivial
    · intro c' _ moved
      exact find?_putRoute (still c' moved) rfl
    · intro e held c' _
      exact route_refused
    intro c₃ _ moved₃
    apply wp_appendAuditRow rfl
    · intro c' _
      exact route_refused
    · intro c₄ _ moved₄
      have there₄ : c₄.routes.find? routeId = some route :=
        (congrArg RouteView.route (view_eq moved₄ List.mem_cons_self)).trans (still c₃ moved₃)
      apply route_ends List.mem_cons_self
      refine RouteMove.opened f route rfl rfl there₄ reached
        (congrArg (RouteView.mk · (c₄.audit ++ _)) ?_)
      exact find?_putRoute (find?_putRoute there₄ rfl) rfl

theorem route_verified (routeId : Uuid) :
    (routeWatch routeId).Verified (routeProgram routeId) (RoutePost routeId) := by
  intro call c _
  cases call with
  | recordFailure f => exact recordFailure_moves f c
  | resetFailures now => exact resetFailures_moves now c
  | setState state expectedRevision actor reason d circuitOpenUntil requestId =>
    exact setState_moves state expectedRevision actor reason d circuitOpenUntil requestId c

end Moves
end Collector.Fetch
