import Collector.Workers.DrainBarrier

/-!
The drain intent over whole runs. A ready row never carries the intent and a draining row always
does; once `mark_draining` was granted the intent outlives heartbeats and sweeps until `mark_ready`
turns the row ready, and a stopped row stays stopped.
-/

namespace Collector.Workers
open Collector.Lib Collector.Persistence Collector.Persistence.Pools

variable {queue lock task : Type} {me : Uuid}

/-- The status of the row and its drain intent agree. -/
def IntentAgrees (row? : Option WorkerInstance) : Prop :=
  ∀ row, row? = some row →
    (row.status = .ready → row.drainRequestedAt = none) ∧
      (row.status = .draining → row.drainRequestedAt.isSome)

/-- The row says that the instance was asked to drain. -/
def DrainAsked (me : Uuid) (c : Fleet queue) : Prop :=
  ∃ row, c.instances.find? me = some row ∧ row.drainRequestedAt.isSome

def Stopped (me : Uuid) (c : Fleet queue) : Prop :=
  ∃ row, c.instances.find? me = some row ∧ row.status = .stopped

/-- `mark_draining` of the instance took effect. -/
def MarksDraining (me : Uuid) (entry : FleetEnded queue lock task) : Prop :=
  ∃ now answer, entry.call = .setInstanceStatus me .draining now ∧ entry.outcome = .ok answer

/-- `mark_ready` of the instance changed its status to ready. -/
def TurnsReady (me : Uuid) (entry : FleetEnded queue lock task) : Prop :=
  ∃ now answer row, entry.call = .setInstanceStatus me .ready now ∧ entry.outcome = .ok answer ∧
    entry.before.instances.find? me = some row ∧ row.status ≠ .ready

/-! ## One move of the row -/

theorem beat_agrees {row : WorkerInstance} {h : Heartbeat} (agrees : IntentAgrees (some row)) :
    IntentAgrees (some (row.beat h)) := by
  rintro _ ⟨⟩
  refine ⟨?_, beat_intent (agrees row rfl).2⟩
  intro ready
  change row.revivedStatus = .ready at ready
  unfold WorkerInstance.revivedStatus at ready
  split at ready
  · split at ready
    · cases ready
    · rename_i unasked
      rw [Bool.not_eq_true, Option.isSome_eq_false_iff, Option.isNone_iff_eq_none] at unasked
      exact unasked
  · exact (agrees row rfl).1 ready

theorem moved_agrees {row : WorkerInstance} {status : InstanceStatus} {now : Time} :
    IntentAgrees (some (row.moved status now)) := by
  rintro _ ⟨⟩
  refine ⟨?_, moved_intent⟩
  intro ready
  cases status <;> first | rfl | cases ready

theorem agrees_invariant : RowInvariant queue lock task IntentAgrees me := by
  intro call outcome before after agrees step
  cases step with
  | still same => exact same ▸ agrees
  | registered r _ _ new =>
    rw [new]
    rintro _ ⟨⟩
    exact ⟨nofun, nofun⟩
  | beat h row _ known _ new =>
    rw [new]
    exact beat_agrees (known ▸ agrees)
  | moved status now row _ _ _ _ new =>
    rw [new]
    exact moved_agrees
  | swept _ now row _ _ _ new =>
    rw [new]
    rintro _ ⟨⟩
    exact ⟨nofun, nofun⟩

section Moves
variable {entry : FleetEnded queue lock task}
  (post : RowPost IntentAgrees me entry.call entry.outcome entry.before entry.after)
include post

/-- Only a `mark_ready` that changes the status takes the intent away. -/
theorem drainAsked_kept (asked : DrainAsked me entry.before) (lifts : ¬TurnsReady me entry) :
    DrainAsked me entry.after := by
  obtain ⟨agrees, step⟩ := post
  dsimp only at agrees step
  obtain ⟨row, found, intent⟩ := asked
  cases step with
  | still same => exact ⟨row, same.trans found, intent⟩
  | registered _ _ absent =>
    rw [absent] at found
    cases found
  | beat h old _ known _ new =>
    rw [known, Option.some.injEq] at found
    exact ⟨_, new, found ▸ intent⟩
  | moved status now old call granted known allowed new =>
    rw [known, Option.some.injEq] at found
    subst found
    refine ⟨_, new, ?_⟩
    cases status with
    | ready =>
      refine absurd ⟨now, _, old, call, granted, known, ?_⟩ lifts
      intro ready
      rw [(agrees old known).1 ready] at intent
      cases intent
    | draining => rfl
    | starting | stale | stopped => exact intent
  | swept _ now old _ known _ new =>
    rw [known, Option.some.injEq] at found
    exact ⟨_, new, found ▸ intent⟩

theorem drainAsked_of_marks (marks : MarksDraining me entry) : DrainAsked me entry.after := by
  obtain ⟨agrees, step⟩ := post
  dsimp only at agrees step
  obtain ⟨now, answer, call, granted⟩ := marks
  cases step with
  | still same reached =>
    obtain ⟨row, found, draining⟩ := reached .draining now answer call granted
    exact ⟨row, same.trans found, (agrees row found).2 draining⟩
  | moved _ _ old asked _ _ _ new =>
    rw [call] at asked
    cases asked
    exact ⟨_, new, rfl⟩
  | registered _ asked | beat _ _ asked | swept _ _ _ asked =>
    rw [call] at asked
    cases asked

theorem stopped_kept (stopped : Stopped me entry.before) : Stopped me entry.after := by
  obtain ⟨agrees, step⟩ := post
  dsimp only at agrees step
  obtain ⟨row, found, stopped⟩ := stopped
  cases step with
  | still same => exact ⟨row, same.trans found, stopped⟩
  | registered _ _ absent =>
    rw [absent] at found
    cases found
  | beat h old _ known live new =>
    rw [known, Option.some.injEq] at found
    exact absurd (found ▸ stopped) live
  | moved status now old _ _ known allowed new =>
    rw [known, Option.some.injEq] at found
    rw [found, stopped] at allowed
    cases allowed
  | swept _ now old _ known live new =>
    rw [known, Option.some.injEq] at found
    rw [found, stopped] at live
    simp at live

end Moves

/-! ## Runs -/

/-- `mark_draining` took effect and no `mark_ready` has turned the row ready since. -/
def Draining (me : Uuid) (history : List (FleetEnded queue lock task)) : Prop :=
  ∃ newer mark older, history = newer ++ mark :: older ∧ MarksDraining me mark ∧
    ∀ entry ∈ newer, ¬TurnsReady me entry

theorem Draining.of_cons {entry : FleetEnded queue lock task}
    {history : List (FleetEnded queue lock task)} (draining : Draining me (entry :: history)) :
    MarksDraining me entry ∨ (Draining me history ∧ ¬TurnsReady me entry) := by
  obtain ⟨newer, mark, older, split, marks, unlifted⟩ := draining
  cases newer with
  | nil =>
    cases split
    exact .inl marks
  | cons first newer =>
    cases split
    exact .inr ⟨⟨newer, mark, older, rfl, marks, fun e member =>
      unlifted e (List.mem_cons_of_mem _ member)⟩, unlifted entry List.mem_cons_self⟩

/-- What every run leaves true of one instance. -/
structure IntentHeld (me : Uuid) (history : List (FleetEnded queue lock task)) (c : Fleet queue) : Prop where
  ready : ∀ row, c.instances.find? me = some row → row.status = .ready → row.drainRequestedAt = none
  draining : Draining me history → DrainAsked me c
  stopped : ∀ entry ∈ history, Stopped me entry.after → Stopped me c

/-- In every interleaving of transactions on the control-plane tables, from an empty table of
instances on: no drain intent is lost, none is left on a ready row, and stopped is final. -/
theorem drain_intent_never_lost (me : Uuid) {start : Fleet queue} (empty : start.instances = ∅)
    {history : List (FleetEnded queue lock task)} {s : FleetSystem queue lock task}
    (run : System.Run fleetProgram start history s) : IntentHeld me history s.committed := by
  have valid : (watch queue lock IntentAgrees me).inv start := by
    intro row found
    change start.instances.find? me = some row at found
    rw [empty, Table.find?_empty] at found
    cases found
  have verified : (watch queue lock IntentAgrees me).Verified (fleetProgram : FleetCall queue lock task → _)
      (RowPost IntentAgrees me) := rows_verified agrees_invariant
  apply verified.serial valid (P := IntentHeld me) _ _ run
  · refine ⟨fun row found => (valid row found).1, ?_, fun _ member => absurd member List.not_mem_nil⟩
    rintro ⟨newer, mark, older, split, _⟩
    simp at split
  · intro history entry held _ agrees _ post
    refine ⟨fun row found => (agrees row found).1, ?_, ?_⟩
    · intro draining
      rcases draining.of_cons with marks | ⟨earlier, unlifted⟩
      · exact drainAsked_of_marks post marks
      · exact drainAsked_kept post (held.draining earlier) unlifted
    · intro other member stopped
      rcases List.mem_cons.mp member with rfl | member
      · exact stopped
      · exact stopped_kept post (held.stopped other member stopped)

/-- Boot, ready, drain, a sweep that finds the instance silent, and a heartbeat after it. -/
def staleCalls : List (FleetCall (List Nat) Unit Nat) :=
  [.upsertPool .fetch sampleState "op" "boot" none 0 1,
    .registerInstance ⟨5, .fetch, "1", 1, none, none, none, none, 0⟩,
    .setInstanceStatus 5 .ready 1, .setInstanceStatus 5 .draining 2, .markStaleInstances 1 9,
    .heartbeatInstance 5 ⟨none, 0, 0, none, 10⟩]

def staleRun : List (FleetEnded (List Nat) Unit Nat) × Fleet (List Nat) :=
  System.serially fleetProgram sampleFleet staleCalls

/-- The instance that was silent comes back draining. -/
theorem drain_intent_survives_sweep : IntentHeld 5 staleRun.1 staleRun.2 ∧
    (staleRun.2.instances.find? 5).map (fun row => (row.status, row.drainRequestedAt)) =
      some (.draining, some 2) :=
  ⟨drain_intent_never_lost 5 rfl (System.run_serially fleetProgram sampleFleet staleCalls),
    by decide +kernel⟩

end Collector.Workers
