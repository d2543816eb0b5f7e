import Collector.Lib.WatchedRow
import Collector.Workers.FleetFrames

/-!
What the transactions do to the row of one worker instance. Whoever writes the row holds it under
a lock that keeps every other writer out, so a commit takes the row, as it is committed at that
moment, through one of five moves: it is registered, it beats, it is moved along a transition, it
is swept, or it stays as it is.
-/

namespace Collector.Workers
open Collector.Lib Collector.Persistence Collector.Persistence.Pools

variable {queue lock task : Type}

/-- A lock that keeps every writer of the row out. -/
def Guards (me : Uuid) (held : List (FleetLock lock × LockMode)) : Prop :=
  ∃ mode, (FleetLock.instance me, mode) ∈ held ∧ mode.conflicts .noKeyUpdate = true

theorem Guards.not_apart {me : Uuid} {held other : List (FleetLock lock × LockMode)}
    {mode : LockMode} (guarded : Guards me other) (mine : (FleetLock.instance me, mode) ∈ held)
    (writes : mode = .noKeyUpdate ∨ mode = .update) : ¬Apart held other := by
  obtain ⟨theirs, member, conflict⟩ := guarded
  exact not_apart_of_writer mine member writes conflict

/-- What a transaction can count on about one instance row of which `P` always holds. -/
abbrev watch (queue lock : Type) (P : Option WorkerInstance → Prop) (me : Uuid) :
    Discipline (Fleet queue) (FleetLock lock) :=
  watching (fun c => c.instances.find? me) (.instance me) P

/-- What a call does to the row of the instance `me`. -/
inductive RowStep (me : Uuid) (call : FleetCall queue lock task)
    (outcome : Except PoolError (FleetAnswer task)) (before after : Option WorkerInstance) : Prop
  /-- A status that is asked for and granted without a change is the one that the row has. -/
  | still : after = before →
      (∀ status now answer, call = .setInstanceStatus me status now → outcome = .ok answer →
        ∃ row, before = some row ∧ row.status = status) → RowStep me call outcome before after
  | registered (r : Registration) : call = .registerInstance r → before = none →
      after = some r.row → RowStep me call outcome before after
  | beat (h : Heartbeat) (row : WorkerInstance) : call = .heartbeatInstance me h →
      before = some row → row.status ≠ .stopped → after = some (row.beat h) →
      RowStep me call outcome before after
  | moved (status : InstanceStatus) (now : Time) (row : WorkerInstance) :
      call = .setInstanceStatus me status now → outcome = .ok (.instance (row.moved status now)) →
      before = some row → status ∈ row.status.transitions → after = some (row.moved status now) →
      RowStep me call outcome before after
  | swept (heartbeatTtl now : Time) (row : WorkerInstance) :
      call = .markStaleInstances heartbeatTtl now → before = some row →
      row.status ∈ [.starting, .ready, .draining] → after = some (row.toStale now) →
      RowStep me call outcome before after

/-- `P` is an invariant of the row: no call breaks it. -/
abbrev RowInvariant (queue lock task : Type) (P : Option WorkerInstance → Prop) (me : Uuid) : Prop :=
  MoveKeeps P (RowStep me : FleetCall queue lock task → _ → _ → _ → Prop)

/-- How a call that ended is explained by the row before and after it. -/
abbrev RowPost (P : Option WorkerInstance → Prop) (me : Uuid) :
    FleetCall queue lock task → Except PoolError (FleetAnswer task) → Fleet queue → Fleet queue → Prop :=
  Moved (fun c => c.instances.find? me) P (RowStep me)

section Steps
variable {P : Option WorkerInstance → Prop} {me : Uuid}

theorem rowPost_error {call : FleetCall queue lock task} {e : PoolError} {c : Fleet queue}
    (valid : P (c.instances.find? me)) : RowPost P me call (.error e) c c := by
  refine ⟨valid, .still rfl ?_⟩
  intro status now answer _ outcome
  cases outcome

/-- A commit that leaves the row alone, unless it was asked for a status. -/
theorem rowPost_same {call : FleetCall queue lock task} {outcome : Except PoolError (FleetAnswer task)}
    {before after : Fleet queue} (valid : P (before.instances.find? me))
    (same : after.instances.find? me = before.instances.find? me)
    (unasked : ∀ status now, call ≠ .setInstanceStatus me status now) :
    RowPost P me call outcome before after := by
  refine ⟨valid, .still same ?_⟩
  intro status now answer asked
  exact absurd asked (unasked status now)

/-- The row of an instance under `FOR UPDATE`. -/
theorem wp_lockInstance {α : Type} {d : Discipline (Fleet queue) (FleetLock lock)}
    {Q : Ending (Fleet queue) (FleetLock lock) PoolError α}
    {f : WorkerInstance → Txn (Fleet queue) (FleetLock lock) PoolError α} {who : Uuid}
    {held : List (FleetLock lock × LockMode)} {pending : Fleet queue → Fleet queue} {c : Fleet queue}
    (refused : ∀ e held c, d.inv c → Q (.error e) held pending c)
    (found : ∀ c' c'' row, d.inv c' → d.inv c'' →
      d.rely ((.instance who, .update) :: held) c' c'' → (pending c').instances.find? who = some row →
      d.wp Q (f row) ((.instance who, .update) :: held) pending c'') :
    d.wp Q (lockInstance who >>= f) held pending c := by
  rw [lockInstance, Txn.bind_assoc]
  apply Discipline.wp_selectLocked
  · intro held' c' _ valid' _
    exact refused _ _ _ valid'
  · intro c' c'' row valid' valid'' _ moved looked
    exact found c' c'' row valid' valid'' moved looked

/-- A row written back under its own lock. -/
theorem find?_setInstance {c c' : Fleet queue} {row : WorkerInstance} {who : Uuid}
    (written : WorkerInstance) (looked : c'.instances.find? who = some row)
    (same : written.instanceId = row.instanceId)
    (moved : (watch queue lock P me).rely [(.instance who, .update)] c' c) :
    (me ≠ who → (Fleet.setInstance written c).instances.find? me = c.instances.find? me) ∧
    (me = who → c.instances.find? me = some row ∧
      (Fleet.setInstance written c).instances.find? me = some written) := by
  obtain ⟨_, key⟩ := (Table.find?_eq_some _ _ _).mp looked
  have written_key : written.instanceId = who := same.trans key
  constructor
  · intro other
    exact Table.find?_put_of_ne _ _ (written_key ▸ other)
  · rintro rfl
    have known : c.instances.find? me = some row := by
      rw [← looked]
      exact moved ⟨.update, List.mem_cons_self, rfl⟩
    refine ⟨known, ?_⟩
    have found := c.instances.find?_put written (written_key ▸ known) me
    rwa [if_pos written_key.symm] at found

/-- A transaction that ends with one instance row written under its lock. -/
theorem ends_of_written (closed : RowInvariant queue lock task P me)
    {call : FleetCall queue lock task} {answer : FleetAnswer task} {c c' : Fleet queue}
    {row : WorkerInstance} {who : Uuid} (written : WorkerInstance)
    (looked : c'.instances.find? who = some row) (same : written.instanceId = row.instanceId)
    (moved : (watch queue lock P me).rely [(.instance who, .update)] c' c)
    (valid : P (c.instances.find? me))
    (unasked : me ≠ who → ∀ status now, call ≠ .setInstanceStatus me status now)
    (step : me = who → RowStep me call (.ok answer) (some row) (some written)) :
    (watch queue lock P me).Ends (RowPost P me call) (.ok answer) [(.instance who, .update)]
      (Fleet.setInstance written) c := by
  obtain ⟨elsewhere, here⟩ := find?_setInstance written looked same moved
  apply ends_of_move closed
  · exact valid
  · by_cases mine : me = who
    · exact .inr ⟨.update, mine ▸ List.mem_cons_self, .inr rfl⟩
    · exact .inl (elsewhere mine)
  · by_cases mine : me = who
    · rw [(here mine).1, (here mine).2]
      exact step mine
    · exact (rowPost_same valid (elsewhere mine) (unasked mine)).2

theorem heartbeat_row (closed : RowInvariant queue lock task P me) (who : Uuid) (h : Heartbeat)
    (c : Fleet queue) : (watch queue lock P me).wp ((watch queue lock P me).Ends
      (RowPost P me (.heartbeatInstance who h : FleetCall queue lock task)))
      (fleetProgram (.heartbeatInstance who h)) [] id c := by
  rw [fleetProgram, Discipline.wp_map]
  unfold heartbeatInstance
  apply wp_lockInstance
  · intro e held c valid
    exact rowPost_error valid
  intro c₁ c₂ row _ valid₂ moved looked
  rw [Discipline.wp_ensure]
  refine ⟨fun live => ?_, fun _ => rowPost_error valid₂⟩
  rw [Discipline.wp_ensure]
  refine ⟨fun _ => ?_, fun _ => rowPost_error valid₂⟩
  rw [Discipline.wp_modify]
  intro c₃ valid₃ moved₃
  apply ends_of_written closed (row.beat h) looked rfl _ valid₃
  · intro _ status now asked
    cases asked
  · rintro rfl
    exact .beat h row rfl rfl (of_decide_eq_true live) rfl
  · exact (watch queue lock P me).trans _ _ _ _ moved moved₃

theorem setInstanceStatus_row (closed : RowInvariant queue lock task P me) (who : Uuid)
    (status : InstanceStatus) (now : Time) (c : Fleet queue) :
    (watch queue lock P me).wp ((watch queue lock P me).Ends
      (RowPost P me (.setInstanceStatus who status now : FleetCall queue lock task)))
      (fleetProgram (.setInstanceStatus who status now)) [] id c := by
  rw [fleetProgram, Discipline.wp_map]
  unfold setInstanceStatus
  apply wp_lockInstance
  · intro e held c valid
    exact rowPost_error valid
  intro c₁ c₂ row valid₁ valid₂ moved looked
  split
  · rename_i same
    apply ends_of_move closed
    · exact valid₂
    · exact .inl rfl
    · refine .still rfl ?_
      intro asked at_ answer call _
      cases call
      refine ⟨row, ?_, same⟩
      rw [← looked]
      exact moved ⟨.update, List.mem_cons_self, rfl⟩
  · rw [Discipline.wp_ensure]
    refine ⟨fun allowed => ?_, fun _ => rowPost_error valid₂⟩
    rw [Discipline.wp_modify]
    intro c₃ valid₃ moved₃
    apply ends_of_written closed (row.moved status now) looked _ _ valid₃
    · rintro other asked at_ call
      cases call
      exact other rfl
    · rintro rfl
      exact .moved status now row rfl rfl rfl (of_decide_eq_true allowed) rfl
    · cases status <;> rfl
    · exact (watch queue lock P me).trans _ _ _ _ moved moved₃

/-- A registered row is new. -/
theorem ends_of_registered (closed : RowInvariant queue lock task P me) {r : Registration}
    {answer : WorkerInstance} {held : List (FleetLock lock × LockMode)} {c : Fleet queue}
    (locked : (FleetLock.instance r.instanceId, LockMode.update) ∈ held)
    (valid : P (c.instances.find? me)) (absent : me = r.instanceId → c.instances.find? me = none) :
    (watch queue lock P me).Ends (RowPost P me (.registerInstance r : FleetCall queue lock task))
      (.ok (.instance answer)) held (Fleet.addInstance r.row) c := by
  have elsewhere : me ≠ r.instanceId →
      (Fleet.addInstance r.row c).instances.find? me = c.instances.find? me :=
    fun other => Table.find?_insert_of_ne _ _ other
  apply ends_of_move closed
  · exact valid
  · by_cases mine : me = r.instanceId
    · exact .inr ⟨.update, mine ▸ locked, .inr rfl⟩
    · exact .inl (elsewhere mine)
  · by_cases mine : me = r.instanceId
    · apply RowStep.registered r rfl (absent mine)
      have fresh := (Table.find?_eq_none _ _).mp (mine ▸ absent mine)
      have new := c.instances.find?_insert r.row fresh me
      rwa [if_pos (show r.row.instanceId = me from mine.symm)] at new
    · refine (rowPost_same valid (elsewhere mine) ?_).2
      intro status now asked
      cases asked

theorem registerInstance_row (closed : RowInvariant queue lock task P me) (r : Registration)
    {c : Fleet queue} (valid : P (c.instances.find? me)) :
    (watch queue lock P me).wp ((watch queue lock P me).Ends
      (RowPost P me (.registerInstance r : FleetCall queue lock task)))
      (fleetProgram (.registerInstance r)) [] id c := by
  rw [fleetProgram, Discipline.wp_map]
  unfold registerInstance
  rw [Discipline.wp_ensure]
  refine ⟨fun _ => ?_, fun _ => rowPost_error valid⟩
  apply Discipline.wp_insertUnique
  · intro held c valid _
    exact rowPost_error valid
  intro c₁ c₂ _ _ _ moved free
  rw [Discipline.wp_modify]
  intro c₃ _ moved₃
  have absent (c' : Fleet queue) (moved' : (watch queue lock P me).rely
      [(.instance r.instanceId, .update)] c₃ c') (mine : me = r.instanceId) :
      c'.instances.find? me = none := by
    have guarded : Guards me [((.instance r.instanceId : FleetLock lock), LockMode.update)] :=
      ⟨.update, by rw [mine]; exact List.mem_cons_self, rfl⟩
    have still : c'.instances.find? me = c₁.instances.find? me :=
      (moved' guarded).trans ((moved₃ guarded).trans (moved guarded))
    rw [still]
    subst mine
    simpa using free
  apply Discipline.wp_selectLocked
  · intro held c₄ sub valid₄ moved₄
    rw [Discipline.wp_ensure]
    refine ⟨fun _ => ?_, fun _ => rowPost_error valid₄⟩
    exact ends_of_registered closed (sub List.mem_cons_self) valid₄ (absent c₄ moved₄)
  · intro c₄ c₅ pool _ valid₅ moved₄ moved₅ _
    rw [Discipline.wp_ensure]
    refine ⟨fun _ => ?_, fun _ => rowPost_error valid₅⟩
    apply ends_of_registered closed (List.mem_cons_of_mem _ List.mem_cons_self) valid₅
    apply absent c₅
    apply (watch queue lock P me).trans _ _ _ _ moved₄
    exact (watch queue lock P me).mono _ _ _ _ (List.subset_cons_self _ _) moved₅

/-- The sweep has not touched the row, or it holds the row and turns a live one stale. -/
def Swept (me : Uuid) (now : Time) (held : List (FleetLock lock × LockMode))
    (pending : Fleet queue → Fleet queue) (c : Fleet queue) : Prop :=
  (∀ s, (pending s).instances.find? me = s.instances.find? me) ∨
    ((.instance me, .noKeyUpdate) ∈ held ∧
      (∃ row, c.instances.find? me = some row ∧ row.status ∈ [.starting, .ready, .draining]) ∧
      ∀ s, (pending s).instances.find? me = (s.instances.find? me).map (WorkerInstance.toStale now))

theorem Swept.move {now : Time} {held more : List (FleetLock lock × LockMode)}
    {pending : Fleet queue → Fleet queue} {c c' : Fleet queue} (swept : Swept me now held pending c)
    (sub : held ⊆ more) (moved : (watch queue lock P me).rely more c c') :
    Swept me now more pending c' := by
  rcases swept with untouched | ⟨locked, ⟨row, found, live⟩, stale⟩
  · exact .inl untouched
  · refine .inr ⟨sub locked, ⟨row, ?_, live⟩, stale⟩
    exact (moved ⟨.noKeyUpdate, sub locked, rfl⟩).trans found

theorem Swept.write {heartbeatTtl now : Time} {held : List (FleetLock lock × LockMode)}
    {pending : Fleet queue → Fleet queue} {c : Fleet queue} {who : Uuid}
    (swept : Swept me now held pending c) (locked : (.instance who, .noKeyUpdate) ∈ held)
    (silent : silentInstance heartbeatTtl now (pending c) who = true) :
    Swept me now held (markStale now who ∘ pending) c := by
  have written (s : Fleet queue) : ((markStale now who ∘ pending) s).instances.find? me =
      if me = who then ((pending s).instances.find? me).map (WorkerInstance.toStale now)
      else (pending s).instances.find? me :=
    Table.find?_update_key (pending s).instances who (.toStale now) (fun _ => rfl) me
  by_cases mine : me = who
  · subst mine
    simp only [if_true] at written
    rcases swept with untouched | ⟨_, known, stale⟩
    · refine .inr ⟨locked, ?_, fun s => by rw [written, untouched]⟩
      rw [silentInstance, untouched] at silent
      obtain ⟨row, found, live⟩ := (Option.any_eq_true _ _).mp silent
      rw [WorkerInstance.silent, Bool.and_eq_true, decide_eq_true_eq] at live
      exact ⟨row, found, live.1⟩
    · refine .inr ⟨locked, known, fun s => ?_⟩
      rw [written, stale]
      cases s.instances.find? me <;> rfl
  · simp only [if_neg mine] at written
    rcases swept with untouched | ⟨there, known, stale⟩
    · exact .inl fun s => by rw [written, untouched]
    · exact .inr ⟨there, known, fun s => by rw [written, stale]⟩

theorem ends_of_swept (closed : RowInvariant queue lock task P me) {heartbeatTtl now : Time}
    {held : List (FleetLock lock × LockMode)} {pending : Fleet queue → Fleet queue} {c : Fleet queue}
    {ids : List Uuid} (valid : P (c.instances.find? me)) (swept : Swept me now held pending c) :
    (watch queue lock P me).Ends
      (RowPost P me (.markStaleInstances heartbeatTtl now : FleetCall queue lock task))
      (.ok (.stale ids)) held pending c := by
  apply ends_of_move closed
  · exact valid
  · rcases swept with untouched | ⟨locked, _, _⟩
    · exact .inl (untouched c)
    · exact .inr ⟨.noKeyUpdate, locked, .inl rfl⟩
  · rcases swept with untouched | ⟨_, ⟨row, found, live⟩, stale⟩
    · refine .still (untouched c) ?_
      intro status at_ answer asked
      cases asked
    · refine .swept heartbeatTtl now row rfl found live ?_
      rw [stale, found]
      rfl

theorem markStaleInstances_row (closed : RowInvariant queue lock task P me)
    (heartbeatTtl now : Time) (c : Fleet queue) :
    (watch queue lock P me).wp ((watch queue lock P me).Ends
      (RowPost P me (.markStaleInstances heartbeatTtl now : FleetCall queue lock task)))
      (fleetProgram (.markStaleInstances heartbeatTtl now)) [] id c := by
  rw [fleetProgram, Discipline.wp_map]
  unfold markStaleInstances
  rw [Discipline.wp_view]
  intro c₁ valid₁ _
  apply Discipline.wp_updateEach (I := fun _ held pending c =>
    P (c.instances.find? me) ∧ Swept me now held pending c)
  · intro i rest held pending c c' valid' moved ⟨_, swept⟩
    exact ⟨valid', swept.move (List.subset_cons_self _ _) moved⟩
  · intro visit held pending c c' valid' moved ⟨_, swept⟩
    exact ⟨valid', swept.move (List.Subset.refl _) moved⟩
  · intro i rest held pending c _ _ now _
    exact now
  · intro i rest held pending c locked _ ⟨valid, swept⟩ silent
    exact ⟨valid, swept.write locked silent⟩
  · intro returned held pending c ⟨valid, swept⟩
    exact ends_of_swept closed valid swept
  · exact valid₁
  · exact ⟨valid₁, .inl fun _ => rfl⟩

/-- Every transaction on the control-plane tables takes the row through one of its moves. -/
theorem rows_verified (closed : RowInvariant queue lock task P me) :
    (watch queue lock P me).Verified (fleetProgram : FleetCall queue lock task → _)
      (RowPost P me) := by
  intro call c valid
  have other {answer : Type} {p : Txn (Fleet queue) (FleetLock lock) PoolError answer}
      {f : answer → FleetAnswer task} (keeps : p.Keeps Fleet.instances)
      (program : fleetProgram call = f <$> p)
      (unasked : ∀ status now, call ≠ .setInstanceStatus me status now) :
      (watch queue lock P me).wp ((watch queue lock P me).Ends (RowPost P me call))
        (fleetProgram call) [] id c := by
    rw [program]
    apply Discipline.ends_of_keeps _ keeps.map _ valid
    · intro a b same
      exact watching_about a b (by rw [same])
    · intro outcome a b valid same
      exact rowPost_same valid (by rw [same]) unasked
  cases call with
  | upsertPool role state actor reason expected now auditId =>
    exact other (upsertPool_keeps_instances role state actor reason expected now auditId) rfl (by simp)
  | requestScale request => exact other (requestScale_keeps_instances request) rfl (by simp)
  | transitionScaleCommand commandId status result heartbeatTtl now =>
    exact other (transitionScaleCommand_keeps_instances commandId status result heartbeatTtl now) rfl
      (by simp)
  | registerInstance registration => exact registerInstance_row closed registration valid
  | heartbeatInstance who heartbeat => exact heartbeat_row closed who heartbeat c
  | setInstanceStatus who status now => exact setInstanceStatus_row closed who status now c
  | markStaleInstances heartbeatTtl now => exact markStaleInstances_row closed heartbeatTtl now c
  | claimPass who bindings first limit now =>
    exact other (keeps_claimPass (fun _ _ => rfl) who bindings first limit now) rfl (by simp)

end Steps
end Collector.Workers
