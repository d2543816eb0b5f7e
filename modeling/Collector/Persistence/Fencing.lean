import Collector.Persistence.QueueRuns
import Collector.Persistence.Projection.TaskLeases

/-!
How far an owner's name fences stale reports. The lease of a job or a projection task has no token
but the name of its owner, so a report on behalf of an earlier claim is told from one on behalf of
a later claim only if the two were made under different names.
-/

namespace Collector.Persistence
open Collector.Lib

/-- **Fencing by name.** Between a worker's claim and a later report of that worker that took
effect, nobody claimed the job exactly when that worker did not claim it again; and so for
projection tasks. -/
theorem stale_reports_fenced_iff {codec : Projection.Codec} {jobs : List Queue.Event}
    {queue : Queue.Db} {tasks : List (Projection.Event codec)} {projection : Projection.Db}
    (queueRun : Queue.machine.Run Queue.Db.empty jobs queue)
    (projectionRun : (Projection.machine codec).Run Projection.Db.empty tasks projection)
    (id : Uuid) (owner : String) :
    (∀ between, LeaseQueue.Spans Queue.claimedBy Queue.reportedBy jobs id owner between →
      ((∀ entry ∈ between, Queue.claimedBy entry id = none) ↔
        ∀ entry ∈ between, Queue.claimedBy entry id ≠ some owner)) ∧
    ∀ between, LeaseQueue.Spans Projection.claimedBy Projection.reportedBy tasks id owner between →
      ((∀ entry ∈ between, Projection.claimedBy entry id = none) ↔
        ∀ entry ∈ between, Projection.claimedBy entry id ≠ some owner) := by
  constructor
  · intro between spans
    have claims : Queue.leaseQueue.claimer = Queue.claimedBy :=
      funext₂ Queue.claimer_eq_claimedBy
    have reports : Queue.leaseQueue.reporter = Queue.reportedBy :=
      funext₂ Queue.reporter_eq_reportedBy
    rw [← claims, ← reports] at spans
    rw [← claims]
    exact Queue.leaseQueue.fenced_iff Queue.vacant_empty queueRun spans
  · intro between spans
    have claims : (Projection.leaseQueue codec).claimer = Projection.claimedBy :=
      funext₂ Projection.claimer_eq_claimedBy
    have reports : (Projection.leaseQueue codec).reporter = Projection.reportedBy :=
      funext₂ Projection.reporter_eq_reportedBy
    rw [← claims, ← reports] at spans
    rw [← claims]
    exact (Projection.leaseQueue codec).fenced_iff Projection.vacant_empty projectionRun spans

/-- A worker that renews its lease and then reports, in either queue. -/
def Queue.renewed : List Event × Db := machine.replay Db.empty [
  .enqueue { jobType := "fetch", idempotencyKey := "k" } (Projection.Sample.id 0x21) 0,
  .claim ["fetch"] "a" 10 1 [] 0,
  .heartbeat (Projection.Sample.id 0x21) "a" 10 (seconds 5),
  .complete (Projection.Sample.id 0x21) "a" (seconds 6)]

def Projection.Sample.renewed : List (Projection.Event codec) × Projection.Db :=
  (Projection.machine codec).replay Projection.Db.empty [register, parse 1,
    .claimProjectionTasks "a" 10 none 1 [] now,
    .heartbeatProjectionTask (id 0x21) "a" 10 (now + seconds 5),
    .releaseProjectionTask (id 0x21) "a" none (now + seconds 6)]

theorem stale_reports_fenced_renewed :
    (∃ between, LeaseQueue.Spans Queue.claimedBy Queue.reportedBy Queue.renewed.1
        (Projection.Sample.id 0x21) "a" between ∧
      ∀ entry ∈ between, Queue.claimedBy entry (Projection.Sample.id 0x21) = none) ∧
    ∃ between, LeaseQueue.Spans Projection.claimedBy Projection.reportedBy
        Projection.Sample.renewed.1 (Projection.Sample.id 0x21) "a" between ∧
      ∀ entry ∈ between, Projection.claimedBy entry (Projection.Sample.id 0x21) = none := by
  have queueRun : Queue.machine.Run Queue.Db.empty Queue.renewed.1 Queue.renewed.2 :=
    Queue.machine.run_replay _ _
  have projectionRun : (Projection.machine Projection.Sample.codec).Run Projection.Db.empty
      Projection.Sample.renewed.1 Projection.Sample.renewed.2 :=
    (Projection.machine Projection.Sample.codec).run_replay _ _
  have fenced := stale_reports_fenced_iff queueRun projectionRun (Projection.Sample.id 0x21) "a"
  constructor
  · have order : ∃ report renewal claim older,
        Queue.renewed.1 = [] ++ report :: ([renewal] ++ claim :: older) ∧
        Queue.reportedBy report (Projection.Sample.id 0x21) = some "a" ∧
        Queue.claimedBy claim (Projection.Sample.id 0x21) = some "a" ∧
        Queue.claimedBy renewal (Projection.Sample.id 0x21) ≠ some "a" :=
      ⟨_, _, _, _, rfl, by decide⟩
    obtain ⟨report, renewal, claim, older, cut, reported, claimed, other⟩ := order
    have spans : LeaseQueue.Spans Queue.claimedBy Queue.reportedBy Queue.renewed.1
        (Projection.Sample.id 0x21) "a" [renewal] :=
      ⟨[], report, claim, older, cut, reported, claimed⟩
    exact ⟨_, spans, (fenced.1 _ spans).mpr fun entry member => List.mem_singleton.mp member ▸ other⟩
  · have order : ∃ report renewal claim older,
        Projection.Sample.renewed.1 = [] ++ report :: ([renewal] ++ claim :: older) ∧
        Projection.reportedBy report (Projection.Sample.id 0x21) = some "a" ∧
        Projection.claimedBy claim (Projection.Sample.id 0x21) = some "a" ∧
        Projection.claimedBy renewal (Projection.Sample.id 0x21) ≠ some "a" :=
      ⟨_, _, _, _, rfl, by decide +kernel⟩
    obtain ⟨report, renewal, claim, older, cut, reported, claimed, other⟩ := order
    have spans : LeaseQueue.Spans Projection.claimedBy Projection.reportedBy
        Projection.Sample.renewed.1 (Projection.Sample.id 0x21) "a" [renewal] :=
      ⟨[], report, claim, older, cut, reported, claimed⟩
    exact ⟨_, spans, (fenced.2 _ spans).mpr fun entry member => List.mem_singleton.mp member ▸ other⟩

namespace Queue

/-- A worker loses its lease, claims the job again under its old name, and the report of its first
attempt arrives. -/
def staleReport : List Call := [
  .enqueue { jobType := "fetch", idempotencyKey := "k" } 7 0,
  .claim ["fetch"] "a" 10 1 [] 0,
  .recoverExpiredLeases 1000 [] (seconds 10),
  .claim ["fetch"] "a" 10 1 [] (seconds 11),
  .complete 7 "a" (seconds 12)]

theorem stale_report_takes_effect :
    ∃ history db between, machine.Run Db.empty history db ∧
      LeaseQueue.Spans claimedBy reportedBy history 7 "a" between ∧
      ∃ entry ∈ between, claimedBy entry 7 = some "a" := by
  have order : ∃ report again recovery claim older,
      (machine.replay Db.empty staleReport).1 = [] ++ report :: ([again, recovery] ++ claim :: older) ∧
      reportedBy report 7 = some "a" ∧ claimedBy claim 7 = some "a" ∧
      claimedBy again 7 = some "a" :=
    ⟨_, _, _, _, _, rfl, by decide, by decide, by decide⟩
  obtain ⟨report, again, recovery, claim, older, cut, reported, claimed, repeated⟩ := order
  exact ⟨_, _, [again, recovery], machine.run_replay Db.empty staleReport,
    ⟨[], report, claim, older, cut, reported, claimed⟩, again, List.mem_cons_self, repeated⟩

end Queue

end Collector.Persistence
