import Collector.Workers.InstanceRows

/-!
The drain barrier of one worker instance. While its row says that it stopped or was asked to
drain, a claim pass takes nothing; only `mark_ready` lifts the barrier. The pass holds the row
under `FOR SHARE` until it commits, and whoever writes the row needs a conflicting lock, so
what the pass saw is still true when it commits.
-/

namespace Collector.Workers
open Collector.Lib Collector.Persistence Collector.Persistence.Pools

variable {queue lock task : Type}

def Barred (row : WorkerInstance) : Prop :=
  row.status = .stopped ∨ row.drainRequestedAt.isSome

/-- The row of the instance says that it must not claim. -/
def Blocked (me : Uuid) (c : Fleet queue) : Prop :=
  ∃ row, c.instances.find? me = some row ∧ Barred row

/-- A draining instance has its drain intent on record. -/
def IntentKept (me : Uuid) (c : Fleet queue) : Prop :=
  ∀ row, c.instances.find? me = some row → row.status = .draining → row.drainRequestedAt.isSome

/-- The same of the row alone. -/
def IntentOnRow (row? : Option WorkerInstance) : Prop :=
  ∀ row, row? = some row → row.status = .draining → row.drainRequestedAt.isSome

/-- What a transaction can count on about one instance row. -/
def barrier (queue lock : Type) (me : Uuid) : Discipline (Fleet queue) (FleetLock lock) where
  inv := IntentKept me
  rely held a b := Guards me held → b.instances.find? me = a.instances.find? me
  refl _ _ _ := rfl
  mono := by
    intro held more a b sub moved ⟨mode, member, conflict⟩
    exact moved ⟨mode, sub member, conflict⟩
  trans := by
    intro held a b c first second guarded
    rw [second guarded, first guarded]

/-- `mark_ready` of the instance that committed. -/
def MarksReady (me : Uuid) (call : FleetCall queue lock task)
    (outcome : Except PoolError (FleetAnswer task)) : Prop :=
  ∃ now row, call = .setInstanceStatus me .ready now ∧ outcome = .ok (.instance row)

/-- `mark_draining` or `mark_stopped` of the instance that committed. -/
def MarksBarrier (me : Uuid) (call : FleetCall queue lock task)
    (outcome : Except PoolError (FleetAnswer task)) : Prop :=
  ∃ status now row, call = .setInstanceStatus me status now ∧ outcome = .ok (.instance row) ∧
    (status = .draining ∨ status = .stopped)

/-- What each call means for the barrier, whatever else went on. -/
structure BarrierStep (me : Uuid) (call : FleetCall queue lock task)
    (outcome : Except PoolError (FleetAnswer task)) (before after : Fleet queue) : Prop where
  kept : ¬MarksReady me call outcome → Blocked me before → Blocked me after
  raised : MarksBarrier me call outcome → Blocked me after
  nothing : ∀ bindings first limit now claimed, call = .claimPass me bindings first limit now →
    outcome = .ok (.claimed claimed) → Blocked me before → claimed.tasks = []

section Steps
variable {me : Uuid}

theorem Blocked.congr {a b : Fleet queue} (same : b.instances.find? me = a.instances.find? me)
    (blocked : Blocked me a) : Blocked me b := by
  unfold Blocked
  rwa [same]

theorem IntentKept.congr {a b : Fleet queue} (same : b.instances.find? me = a.instances.find? me)
    (kept : IntentKept me a) : IntentKept me b := by
  unfold IntentKept
  rwa [same]

theorem barrierStep_error {call : FleetCall queue lock task} {e : PoolError} {c : Fleet queue} :
    BarrierStep me call (.error e) c c where
  kept _ blocked := blocked
  raised := by
    rintro ⟨status, now, row, _, outcome, _⟩
    cases outcome
  nothing := by
    intro bindings first limit now claimed _ outcome
    cases outcome

/-- A heartbeat keeps the intent; it never sees a stopped row, and a stale one comes back as
draining when the intent is set. -/
theorem beat_barred {row : WorkerInstance} {h : Heartbeat} (live : row.status ≠ .stopped)
    (barred : Barred row) : Barred (row.beat h) :=
  .inr (barred.resolve_left live)

theorem beat_intent {row : WorkerInstance} {h : Heartbeat}
    (intent : row.status = .draining → row.drainRequestedAt.isSome)
    (draining : (row.beat h).status = .draining) : (row.beat h).drainRequestedAt.isSome := by
  change row.revivedStatus = .draining at draining
  unfold WorkerInstance.revivedStatus at draining
  split at draining
  · split at draining
    · assumption
    · cases draining
  · exact intent draining

theorem moved_intent {row : WorkerInstance} {status : InstanceStatus} {now : Time}
    (draining : (row.moved status now).status = .draining) :
    (row.moved status now).drainRequestedAt.isSome := by
  cases status <;> first | rfl | cases draining

/-- Only `ready` takes the intent away, and a stopped row allows no transition at all. -/
theorem moved_barred {row : WorkerInstance} {status : InstanceStatus} {now : Time}
    (allowed : status ∈ row.status.transitions) (unready : status ≠ .ready) (barred : Barred row) :
    Barred (row.moved status now) := by
  rcases barred with stopped | intent
  · rw [stopped] at allowed
    cases allowed
  · cases status with
    | ready => exact absurd rfl unready
    | stopped => exact .inl rfl
    | draining => exact .inr rfl
    | starting => exact .inr intent
    | stale => exact .inr intent

theorem toStale_barred {row : WorkerInstance} {now : Time} (live : row.status ≠ .stopped)
    (barred : Barred row) : Barred (row.toStale now) :=
  .inr (barred.resolve_left live)

/-- No move takes the intent from a draining row. -/
theorem intent_invariant : RowInvariant queue lock task IntentOnRow me := by
  intro call outcome before after intent step row found draining
  cases step with
  | still same => exact intent row (same ▸ found) draining
  | registered r _ _ new =>
    rw [new, Option.some.injEq] at found
    subst found
    cases draining
  | beat h old _ known _ new =>
    rw [new, Option.some.injEq] at found
    subst found
    exact beat_intent (intent old known) draining
  | moved status now old _ _ _ _ new =>
    rw [new, Option.some.injEq] at found
    subst found
    exact moved_intent draining
  | swept _ now old _ _ _ new =>
    rw [new, Option.some.injEq] at found
    subst found
    cases draining

/-- What the move of the row means for the barrier, when the call is no claim pass. -/
theorem barrierStep_of_row {call : FleetCall queue lock task}
    {outcome : Except PoolError (FleetAnswer task)} {before after : Fleet queue}
    (idle : ∀ bindings first limit now, call ≠ .claimPass me bindings first limit now)
    (post : RowPost IntentOnRow me call outcome before after) :
    BarrierStep me call outcome before after := by
  obtain ⟨intent, step⟩ := post
  dsimp only at intent step
  refine ⟨?_, ?_, fun bindings first limit now _ claims => absurd claims (idle bindings first limit now)⟩
  · rintro unready ⟨row, found, barred⟩
    cases step with
    | still same _ => exact ⟨row, same.trans found, barred⟩
    | registered _ _ absent _ =>
      rw [absent] at found
      cases found
    | beat h old _ known live new =>
      rw [known, Option.some.injEq] at found
      exact ⟨_, new, beat_barred live (found ▸ barred)⟩
    | moved status now old asked granted known allowed new =>
      rw [known, Option.some.injEq] at found
      refine ⟨_, new, moved_barred allowed ?_ (found ▸ barred)⟩
      rintro rfl
      exact unready ⟨now, _, asked, granted⟩
    | swept _ now old _ known live new =>
      rw [known, Option.some.injEq] at found
      refine ⟨_, new, toStale_barred ?_ (found ▸ barred)⟩
      intro stopped
      simp [stopped] at live
  · rintro ⟨status, now, answer, marks, committed, kind⟩
    cases step with
    | still same granted =>
      obtain ⟨row, found, reached⟩ := granted status now _ marks committed
      refine ⟨row, same.trans found, ?_⟩
      rcases kind with rfl | rfl
      · exact .inr (intent row found reached)
      · exact .inl reached
    | moved _ _ old asked _ known allowed new =>
      rw [marks] at asked
      cases asked
      rcases kind with rfl | rfl
      · exact ⟨_, new, .inr rfl⟩
      · exact ⟨_, new, .inl rfl⟩
    | registered _ asked | beat _ _ asked | swept _ _ _ asked =>
      rw [marks] at asked
      cases asked

/-- The barrier of a call that is no claim pass. -/
theorem barrier_of_rows {call : FleetCall queue lock task} {c : Fleet queue} (valid : IntentKept me c)
    (idle : ∀ bindings first limit now, call ≠ .claimPass me bindings first limit now) :
    (barrier queue lock me).wp ((barrier queue lock me).Ends (BarrierStep me call))
      (fleetProgram call) [] id c :=
  Discipline.wp_mono (fun _ _ _ _ => .mono fun _ _ _ => barrierStep_of_row idle)
    (rows_verified intent_invariant call c valid)

/-- A pass that is allowed saw the row ready and without a drain intent, under a lock that it
keeps until it commits. -/
theorem claimPass_verified (who : Uuid) (bindings : List (Claimer queue lock task))
    (first limit : Nat) (now : Time) (c : Fleet queue) :
    (barrier queue lock me).wp ((barrier queue lock me).Ends
      (BarrierStep me (.claimPass who bindings first limit now)))
      (fleetProgram (.claimPass who bindings first limit now)) [] id c := by
  have unmarked (outcome : Except PoolError (FleetAnswer task)) :
      ¬MarksBarrier me (.claimPass who bindings first limit now) outcome := by
    rintro ⟨status, at_, row, marks, _⟩
    cases marks
  rw [fleetProgram, Discipline.wp_map]
  unfold claimPass claimAllowed
  rw [Txn.bind_assoc]
  have refuses (held : List (FleetLock lock × LockMode)) (c : Fleet queue) (valid : IntentKept me c) :
      (barrier queue lock me).Ends (BarrierStep me (.claimPass who bindings first limit now))
        (.ok (.claimed ⟨[], first⟩)) held id c := by
    refine ⟨valid, fun _ _ _ => rfl, fun _ blocked => blocked, fun marks => absurd marks (unmarked _),
      ?_⟩
    intro _ _ _ _ claimed _ outcome _
    cases outcome
    rfl
  apply Discipline.wp_selectLocked
  · intro held c' _ valid' _
    exact refuses held c' valid'
  · intro c₁ c₂ row _ valid₂ _ moved looked
    change (barrier queue lock me).wp _ (if _ then _ else _) _ _ _
    split
    · rename_i allowed
      rw [Bool.and_eq_true, decide_eq_true_eq] at allowed
      have keeps (visit : List Nat) (claimed : Claimed task) :
          (claimFrom bindings limit now visit claimed).Keeps Fleet.instances :=
        keeps_claimFrom (fun _ _ => rfl) bindings limit now visit claimed
      apply Discipline.wp_mono _ (Discipline.wp_keeps (keeps _ _) (fun _ => rfl) valid₂
        (List.Subset.refl _) moved)
      rintro outcome held pending c₃ ⟨valid₃, _, since, same⟩
      cases outcome with
      | error e => exact barrierStep_error
      | ok claimed =>
        have untouched : (pending c₃).instances.find? me = c₃.instances.find? me := by rw [same, id]
        refine ⟨valid₃.congr untouched, fun _ _ _ => untouched, ?_, ?_, ?_⟩
        · exact fun _ blocked => blocked.congr untouched
        · exact fun marks => absurd marks (unmarked _)
        · rintro _ _ _ _ _ claims _ ⟨row', found, barred⟩
          cases claims
          rw [since ⟨.share, List.mem_cons_self, rfl⟩, show c₁.instances.find? me = _ from looked] at found
          cases found
          rcases barred with stopped | intent
          · rw [stopped] at allowed
            cases allowed.2
          · rw [Option.isNone_iff_eq_none] at allowed
            rw [allowed.1] at intent
            cases intent
    · exact refuses _ c₂ valid₂

/-- Every transaction on the control-plane tables respects the barrier. -/
theorem barrier_verified (me : Uuid) :
    (barrier queue lock me).Verified (fleetProgram : FleetCall queue lock task → _)
      (BarrierStep me) := by
  intro call c valid
  cases call with
  | claimPass who bindings first limit now => exact claimPass_verified who bindings first limit now c
  | upsertPool | requestScale | transitionScaleCommand | registerInstance | heartbeatInstance
  | setInstanceStatus | markStaleInstances => exact barrier_of_rows valid (by simp)

end Steps

/-!
The drain barrier over whole runs: from the commit of `mark_draining` or `mark_stopped` to the
commit of `mark_ready`, no claim pass of the instance takes a task, however its transactions
interleave with heartbeats, sweeps and everything else on the control-plane tables.
-/

section Runs
variable {me : Uuid}

/-- The last committed mark of the instance was `mark_draining` or `mark_stopped`. -/
def BarrierUp (me : Uuid) (history : List (FleetEnded queue lock task)) : Prop :=
  ∃ newer mark older, history = newer ++ mark :: older ∧ MarksBarrier me mark.call mark.outcome ∧
    ∀ entry ∈ newer, ¬MarksReady me entry.call entry.outcome

theorem BarrierUp.of_cons {entry : FleetEnded queue lock task}
    {history : List (FleetEnded queue lock task)} (up : BarrierUp me (entry :: history)) :
    MarksBarrier me entry.call entry.outcome ∨
      (BarrierUp me history ∧ ¬MarksReady me entry.call entry.outcome) := by
  obtain ⟨newer, mark, older, split, marks, unready⟩ := up
  cases newer with
  | nil =>
    cases split
    exact .inl marks
  | cons first newer =>
    cases split
    exact .inr ⟨⟨newer, mark, older, rfl, marks, fun e member =>
      unready e (List.mem_cons_of_mem _ member)⟩, unready entry List.mem_cons_self⟩

/-- A backend with a list of task numbers that hands out what is there. -/
def takeAll : Claimer (List Nat) Unit Nat := fun limit _ => do
  let waiting ← .view
  .modify fun tasks => tasks.drop limit
  return waiting.take limit

def sampleFleet : Fleet (List Nat) := ⟨∅, ∅, ∅, [], [7, 8]⟩

def sampleState : PoolDesiredState := ⟨1, 1, 2, 0, "manual", "default"⟩

/-- Boot, one pass that takes a task, a drain and another pass. -/
def sampleCalls : List (FleetCall (List Nat) Unit Nat) :=
  [.upsertPool .fetch sampleState "op" "boot" none 0 1,
    .registerInstance ⟨5, .fetch, "1", 1, none, none, none, none, 0⟩,
    .setInstanceStatus 5 .ready 1, .claimPass 5 [takeAll] 0 1 2, .setInstanceStatus 5 .draining 3,
    .claimPass 5 [takeAll] 0 1 4]

def sampleRun : List (FleetEnded (List Nat) Unit Nat) × Fleet (List Nat) :=
  System.serially fleetProgram sampleFleet sampleCalls

end Runs
end Collector.Workers
