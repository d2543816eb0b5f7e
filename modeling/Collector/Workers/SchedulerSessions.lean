import Mathlib.Data.List.Perm.Subperm
import Collector.Workers.SchedulerLease

/-!
Where the sessions of the schedulers are. A session is in one place of one scheduler, and only the session
of the retained connection is queried under a lease. A session that goes back to the pool holds no lock,
unless the driver kept it after a failure in the middle of the acquisition; so the lock is taken once
wherever it is held, and one release frees it.
-/

namespace Collector.Workers.Singleton
open Collector.Lib

/-- Nothing is retained and nothing is asked. -/
def Scheduler.Bare (p : Scheduler) : Prop := p.connection = none ∧ p.check = none

/-- A query in flight is one whose caller may be gone, on the retained connection. -/
def Scheduler.Detached (p : Scheduler) : Prop :=
  ∀ check ∈ p.check, p.connection = some check.session ∧ check.asker = .tick

/-- What is so at each place of the loop. -/
def Sound (p : Scheduler) : Prop :=
  match p.pc with
  | .top | .sleeping => (p.active = false → p.Bare) ∧ p.Detached
  | .connecting | .locking _ | .lockAnswered _ _ | .asking _ => p.active = false ∧ p.Bare
  | .turn _ | .starting _ | .running _ => p.active = true ∧ p.Detached
  | .checking _ => p.active = true ∧ ∀ check ∈ p.check, p.connection = some check.session
  | .stopping => p.Detached
  | .unlocking s | .unlocked s _ => p.connection = some s ∧ p.check = none
  | .ended => p.Bare

variable {me ticks : Nat} {server server' : Server} {p p' : Scheduler} {event : Option Event}

theorem sound_fresh : Sound .fresh := by
  simp [Sound, Scheduler.fresh, Scheduler.Bare, Scheduler.Detached]

theorem Sound.move (sound : Sound p) (move : Move me ticks (server, p) event (server', p')) :
    Sound p' := by
  unfold Sound at sound
  cases move with
  | answers asked alive | checkFails asked | tickAnswered answered =>
    unfold Sound
    cases here : p.pc <;> simp_all [Scheduler.Bare, Scheduler.Detached]
  | aborts here =>
    have retained : ∀ check ∈ p.check, p.connection = some check.session := by
      rcases here with here | ⟨i, here⟩ | ⟨before, here⟩ <;> simp only [here] at sound
      · exact fun check member => (sound.2 check member).1
      · exact fun check member => (sound.2 check member).1
      · exact sound.2
    intro check member
    obtain ⟨before, asked, rfl⟩ := Option.map_eq_some_iff.mp member
    exact ⟨retained before asked, rfl⟩
  | _ => simp_all [Sound, Scheduler.Bare, Scheduler.Detached]

section Sessions

/-- The sessions of a scheduler, whatever their server thinks of them. -/
def Scheduler.taken (p : Scheduler) : List Session := p.session.toList ++ p.pool

/-- No session is in two places, and all were opened here. -/
def Owned (me : Nat) (p : Scheduler) : Prop :=
  p.taken.Nodup ∧ ∀ s ∈ p.taken, s.process = me ∧ s.number < p.opened

theorem back_subperm (kept : Bool) (s : Session) (pool : List Session) :
    (back kept s pool).Subperm (s :: pool) := by
  cases kept
  · exact (List.sublist_cons_self s pool).subperm
  · exact List.Subperm.refl _

/-- A scheduler only ever adds the session that it opens. -/
theorem Move.taken (sound : Sound p) (move : Move me ticks (server, p) event (server', p')) :
    (p'.taken.Subperm p.taken ∧ p.opened ≤ p'.opened) ∨
      (p'.taken = ⟨me, p.opened⟩ :: p.taken ∧ p'.opened = p.opened + 1) := by
  unfold Sound at sound
  cases move with
  | opens here => right; simp_all [Scheduler.taken, Scheduler.session, Scheduler.Bare]
  | reuses here pooled =>
    left
    have put := (List.perm_cons_erase pooled).symm.subperm
    simp_all [Scheduler.taken, Scheduler.session, Scheduler.Bare]
  | answers asked alive | checkFails asked =>
    exact .inl ⟨List.Subperm.refl _, Nat.le_refl _⟩
  | tickAnswered answered =>
    left
    cases here : p.pc <;> cases ‹Bool› <;>
      simp_all [Scheduler.taken, Scheduler.session, Scheduler.Bare, Scheduler.Detached, List.Subperm.refl,
        (List.sublist_cons_self _ _).subperm]
  | aborts here =>
    left
    rcases here with here | ⟨i, here⟩ | ⟨before, here⟩ <;>
      simp_all [Scheduler.taken, Scheduler.session, List.Subperm.refl]
  | _ =>
    left
    simp_all [Scheduler.taken, Scheduler.session, Scheduler.Bare, Scheduler.Detached, List.Subperm.refl,
      back_subperm, (List.sublist_cons_self _ _).subperm]

theorem Owned.move (owned : Owned me p) (sound : Sound p)
    (move : Move me ticks (server, p) event (server', p')) : Owned me p' := by
  rcases move.taken sound with ⟨⟨l, same, sub⟩, more⟩ | ⟨added, counted⟩
  · refine ⟨same.nodup_iff.mp (owned.1.sublist sub), fun s member => ?_⟩
    have known := owned.2 s (sub.subset (same.mem_iff.mpr member))
    exact ⟨known.1, Nat.lt_of_lt_of_le known.2 more⟩
  · have unknown : (⟨me, p.opened⟩ : Session) ∉ p.taken := fun member =>
      Nat.lt_irrefl _ (owned.2 _ member).2
    refine ⟨by rw [added]; exact List.nodup_cons.mpr ⟨unknown, owned.1⟩, fun s member => ?_⟩
    rw [added, List.mem_cons] at member
    rw [counted]
    rcases member with rfl | member
    · exact ⟨rfl, Nat.lt_succ_self _⟩
    · exact ⟨(owned.2 s member).1, Nat.lt_succ_of_lt (owned.2 s member).2⟩


/-- The sessions that ought to hold nothing: those of the pool, and one that is on its way there. -/
def Scheduler.Free (p : Scheduler) (s : Session) : Prop :=
  s ∈ p.pool ∨ p.pc = .locking s ∨ p.pc = .lockAnswered s false ∨ p.pc = .unlocked s true

/-- A lock that is held was taken once, by a session that was opened, and by none that is free. -/
structure Tidy (me : Nat) (server : Server) (p : Scheduler) : Prop where
  sound : Sound p
  owned : Owned me p
  free : ∀ s, p.Free s → server.holder ≠ some s
  known : ∀ s, server.holder = some s → s.process = me → s.number < p.opened

def Server.Once (server : Server) : Prop := ∀ s, server.holder = some s → server.depth = 1

theorem Scheduler.Free.taken (sound : Sound p) {s : Session} (free : p.Free s) : s ∈ p.taken := by
  rcases free with pooled | here | here | here
  · exact List.mem_append_right _ pooled
  all_goals
    simp only [Sound, here] at sound
    simp [Scheduler.taken, Scheduler.session, here, sound.1]

theorem mem_back {kept : Bool} {s t : Session} {pool : List Session} :
    t ∈ back kept s pool ↔ t ∈ pool ∨ kept = true ∧ t = s := by
  cases kept <;> simp [back, or_comm]

theorem Tidy.locks (tidy : Tidy me server p) {s : Session} (here : p.pc = .locking s) :
    (server.holder = none ∧ server.tryLock s = (true, { server with holder := some s, depth := 1 })) ∨
      server.tryLock s = (false, server) := by
  have other := tidy.free s (.inr (.inl here))
  by_cases vacant : server.holder = none
  · exact .inl ⟨vacant, by rw [Server.tryLock, if_pos vacant]⟩
  · exact .inr (by rw [Server.tryLock, if_neg vacant, if_neg other])

theorem Server.Once.unlocks (once : server.Once) (s : Session) :
    server.unlock s = (true, { server with holder := none, depth := 0 }) ∨
      server.holder ≠ some s ∧ server.unlock s = (false, server) := by
  by_cases holds : server.holder = some s
  · have single : server.depth ≤ 1 := Nat.le_of_eq (once s holds)
    exact .inl (by rw [Server.unlock, if_pos holds, if_pos single])
  · exact .inr ⟨holds, by rw [Server.unlock, if_neg holds]⟩

theorem Server.holder_of_die {s t : Session} (holds : (server.die s).holder = some t) :
    server.holder = some t := by
  unfold Server.die at holds
  split_ifs at holds
  exact holds

theorem Server.Once.move (once : server.Once) (tidy : Tidy me server p)
    (move : Move me ticks (server, p) event (server', p')) : server'.Once := by
  cases move with
  | @locks _ _ s here alive =>
    rcases tidy.locks here with ⟨vacant, taken⟩ | taken <;> rw [taken]
    · exact fun _ _ => rfl
    · exact once
  | @unlocks _ _ s here alive =>
    rcases once.unlocks s with freed | ⟨other, freed⟩ <;> rw [freed]
    · intro t holds
      cases holds
    · exact once
  | _ => exact once

/-- A move of the lock, for the rest of the world: it is freed, or kept, or taken by an own session. -/
theorem Move.holder (tidy : Tidy me server p) (once : server.Once)
    (move : Move me ticks (server, p) event (server', p')) {s : Session} (holds : server'.holder = some s) :
    server.holder = some s ∨ p.pc = .locking s ∧ p'.pc = .lockAnswered s true ∧ p'.pool = p.pool := by
  cases move with
  | @locks _ _ t here alive =>
    rcases tidy.locks here with ⟨vacant, taken⟩ | taken <;> rw [taken] at holds ⊢
    · obtain rfl : t = s := Option.some.inj holds
      exact .inr ⟨here, rfl, rfl⟩
    · exact .inl holds
  | @unlocks _ _ t here alive =>
    rcases once.unlocks t with freed | ⟨other, freed⟩ <;> rw [freed] at holds
    · cases holds
    · exact .inl holds
  | _ => exact .inl holds

/-- What becomes free was free before, was opened just now, or has been released. -/
theorem Move.frees (tidy : Tidy me server p) (once : server.Once) (clean : ∀ e ∈ event, e ≠ .leftLocked)
    (move : Move me ticks (server, p) event (server', p')) {s : Session} (free : p'.Free s) :
    p.Free s ∨ s = ⟨me, p.opened⟩ ∧ server' = server ∨ server'.holder ≠ some s := by
  cases move with
  | opens here =>
    rcases free with pooled | here | here | here
    · exact .inl (.inl pooled)
    · cases here
      exact .inr (.inl ⟨rfl, rfl⟩)
    · cases here
    · cases here
  | reuses here pooled =>
    left
    rcases free with pooled | here | here | here
    · exact .inl (List.mem_of_mem_erase pooled)
    · cases here
      exact .inl pooled
    · cases here
    · cases here
  | @locks _ _ t here alive =>
    rcases tidy.locks here with ⟨vacant, taken⟩ | taken <;> rw [taken] at free ⊢
    · exact .inl (.inl (by simpa [Scheduler.Free] using free))
    · left
      simp [Scheduler.Free] at free
      grind [Scheduler.Free]
  | @unlocks _ _ t here alive =>
    rcases once.unlocks t with freed | ⟨other, freed⟩ <;> rw [freed] at free ⊢
    · exact .inr (.inr (by simp))
    · exact .inl (.inl (by simpa [Scheduler.Free] using free))
  | lockFails kept here | refused here | released here | pidFails kept here | lockReplyLost kept here =>
    grind [Scheduler.Free, mem_back]
  | _ => simp_all [Scheduler.Free]

theorem Tidy.move (tidy : Tidy me server p) (once : server.Once) (clean : ∀ e ∈ event, e ≠ .leftLocked)
    (move : Move me ticks (server, p) event (server', p')) : Tidy me server' p' where
  sound := tidy.sound.move move
  owned := tidy.owned.move tidy.sound move
  free s free := by
    intro holds
    rcases move.frees tidy once clean free with before | ⟨rfl, same⟩ | freed
    · rcases move.holder tidy once holds with held | ⟨here, there, same⟩
      · exact tidy.free s before held
      · have apart := tidy.owned.1
        simp [Scheduler.taken, Scheduler.session, here] at apart
        simp [Scheduler.Free, there, same] at free
        exact apart.1 free
    · rw [same] at holds
      exact Nat.lt_irrefl _ (tidy.known _ holds rfl)
    · exact freed holds
  known s holds mine := by
    have more : p.opened ≤ p'.opened := by
      rcases move.taken tidy.sound with ⟨_, more⟩ | ⟨_, counted⟩
      · exact more
      · omega
    rcases move.holder tidy once holds with held | ⟨here, _, _⟩
    · exact Nat.lt_of_lt_of_le (tidy.known s held mine) more
    · refine Nat.lt_of_lt_of_le (tidy.owned.2 s ?_).2 more
      simp [Scheduler.taken, Scheduler.session, here]

/-- The moves of another scheduler change nothing for this one. -/
theorem Tidy.other {other : Nat} {q : Scheduler} (tidy : Tidy other server q) (mover : Tidy me server p)
    (once : server.Once) (apart : other ≠ me) (move : Move me ticks (server, p) event (server', p')) :
    Tidy other server' q where
  sound := tidy.sound
  owned := tidy.owned
  free s free := by
    intro holds
    rcases move.holder mover once holds with held | ⟨here, _, _⟩
    · exact tidy.free s free held
    · have mine := (tidy.owned.2 s (free.taken tidy.sound)).1
      have theirs := (mover.owned.2 s (by simp [Scheduler.taken, Scheduler.session, here])).1
      exact apart (mine.symm.trans theirs)
  known s holds mine := by
    rcases move.holder mover once holds with held | ⟨here, _, _⟩
    · exact tidy.known s held mine
    · have theirs := (mover.owned.2 s (by simp [Scheduler.taken, Scheduler.session, here])).1
      exact absurd (mine.symm.trans theirs) apart

end Sessions

section Worlds
variable {w w' : World} {before : List (Nat × Event)}

/-- Every scheduler is sound and has its own sessions. -/
def World.Good (w : World) : Prop := ∀ me, Sound (w.procs me) ∧ Owned me (w.procs me)

theorem good_start : World.start.Good := fun _ =>
  ⟨sound_fresh, by simp [Owned, World.start, Scheduler.fresh, Scheduler.taken, Scheduler.session]⟩

theorem good_step {event : Option (Nat × Event)} (good : w.Good) (step : Step ticks w event w') :
    w'.Good := by
  cases step with
  | @moves mover event server p move =>
    intro me
    by_cases same : me = mover
    · subst same
      simpa using And.intro ((good me).1.move move) ((good me).2.move (good me).1 move)
    · simpa [Function.update_of_ne same] using good me
  | dies s => exact good

theorem good_of_run (run : RunIn (Step ticks) (fun _ => True) World.start before w) : w.Good :=
  run.invariant World.Good (fun _ => True) (fun _ _ _ good step _ => good_step good step) good_start
    fun _ _ => trivial

/-- Two schedulers never hold the lock together. -/
theorem World.Good.holder_unique {other : Nat} (good : w.Good) (mine : w.Holds me) (theirs : w.Holds other) :
    me = other := by
  obtain ⟨s, here, holds⟩ := mine
  obtain ⟨t, there, same⟩ := theirs
  obtain rfl : s = t := Option.some.inj (holds.symm.trans same)
  have first := ((good me).2.2 s (by simp [Scheduler.taken, here])).1
  have second := ((good other).2.2 s (by simp [Scheduler.taken, there])).1
  exact first.symm.trans second

/-- The sessions of all schedulers are where they ought to be, and so is the lock. -/
def World.Tidy (w : World) : Prop := w.server.Once ∧ ∀ me, Singleton.Tidy me w.server (w.procs me)

theorem tidy_start : World.start.Tidy := by
  refine ⟨fun s holds => (by cases holds), fun me => ⟨(good_start me).1, (good_start me).2, ?_, ?_⟩⟩
  · intro s _ holds
    cases holds
  · intro s holds
    cases holds

theorem Tidy.dies (tidy : Tidy me server p) (s : Session) : Tidy me (server.die s) p where
  sound := tidy.sound
  owned := tidy.owned
  free t free holds := tidy.free t free (Server.holder_of_die holds)
  known t holds := tidy.known t (Server.holder_of_die holds)

theorem tidy_step {event : Option (Nat × Event)} (tidy : w.Tidy) (step : Step ticks w event w')
    (clean : ∀ e ∈ event, e.2 ≠ .leftLocked) : w'.Tidy := by
  cases step with
  | @moves mover event server p move =>
    have own : ∀ e ∈ event, e ≠ .leftLocked := fun e member =>
      clean (mover, e) (Option.mem_map_of_mem _ member)
    refine ⟨tidy.1.move (tidy.2 mover) move, fun me => ?_⟩
    by_cases same : me = mover
    · subst same
      simpa using (tidy.2 me).move tidy.1 own move
    · simpa [Function.update_of_ne same] using (tidy.2 me).other (tidy.2 mover) tidy.1 same move
  | dies s => exact ⟨fun t holds => tidy.1 t (Server.holder_of_die holds), fun me => (tidy.2 me).dies s⟩

end Worlds

end Collector.Workers.Singleton
