import Collector.Workers.SchedulerSessions

/-!
What the advisory lock gives the schedulers. A scheduler starts a tick only on an answer of the server
that it has not used yet, so after its session lost the lock it starts one more tick at most, and this is
so of every other scheduler while one of them holds the lock.
-/

namespace Collector.Workers.Singleton
open Collector.Lib

variable {me ticks : Nat} {server server' : Server} {p p' : Scheduler} {event : Option Event}

section Credit

def Check.credit : Check → Nat
  | ⟨.loop, _, some true⟩ => 1
  | _ => 0

/-- Whether there is an answer that the loop may still start a tick on. -/
def Pc.credit (answered : Nat) : Pc → Nat
  | .turn 0 | .starting _ | .lockAnswered _ true | .asking _ => 1
  | .checking _ => answered
  | _ => 0

def Scheduler.credit (p : Scheduler) : Nat := p.pc.credit (p.check.elim 0 Check.credit)

theorem Pc.credit_mono (pc : Pc) {answered other : Nat} (less : answered ≤ other) :
    pc.credit answered ≤ pc.credit other := by
  cases pc with
  | turn i => cases i <;> exact Nat.le_refl _
  | lockAnswered s granted => cases granted <;> exact Nat.le_refl _
  | checking before => exact less
  | _ => exact Nat.le_refl _

theorem Check.credit_le_one (check : Check) : check.credit ≤ 1 := by
  unfold Check.credit
  split <;> omega

theorem Scheduler.credit_le_one : p.credit ≤ 1 := by
  have answered : p.check.elim 0 Check.credit ≤ 1 := by
    cases p.check with
    | none => exact Nat.zero_le 1
    | some check => exact check.credit_le_one
  refine Nat.le_trans (p.pc.credit_mono answered) ?_
  unfold Pc.credit
  split <;> omega

/-- A detached query is of no use to the loop. -/
theorem Scheduler.Detached.credit (detached : p.Detached) : p.check.elim 0 Check.credit = 0 := by
  cases asked : p.check with
  | none => rfl
  | some check =>
    obtain ⟨asker, s, answer⟩ := check
    obtain rfl : asker = .tick := (detached _ asked).2
    rfl

def Event.isTick : Event → Bool
  | tick _ => true
  | leftLocked => false

/-- An answer to the loop is worth nothing if the lock is not held. -/
theorem Scheduler.credit_answered {asker : Asker} {s : Session} (sound : Sound p)
    (lost : ¬ p.Holds server) (asked : p.check = some ⟨asker, s, none⟩) :
    { p with check := some ⟨asker, s, some (server.holder = some s)⟩ }.credit ≤ p.credit := by
  cases here : p.pc with
  | checking before =>
    have retained : p.connection = some s := by
      rw [Sound, here] at sound
      exact sound.2 _ asked
    have other : server.holder ≠ some s := fun same =>
      lost ⟨s, by rw [Scheduler.session, here]; exact retained, same⟩
    simp [Scheduler.credit, here, other, Pc.credit, Check.credit]
  | turn i => cases i <;> simp [Scheduler.credit, here, Pc.credit]
  | lockAnswered t granted => cases granted <;> simp [Scheduler.credit, here, Pc.credit]
  | _ => simp [Scheduler.credit, here, Pc.credit]

/-- Without the lock a scheduler gains no answer, and a start of a tick uses one up. -/
theorem Move.pays (sound : Sound p) (before : ¬ p.Holds server) (after : ¬ p'.Holds server')
    (move : Move me ticks (server, p) event (server', p')) :
    event.toList.countP Event.isTick + p'.credit ≤ p.credit := by
  cases move with
  | @locks _ _ s here alive =>
    cases granted : (server.tryLock s).1 with
    | false => simp [Scheduler.credit, Pc.credit]
    | true =>
      refine absurd ⟨s, by simp [Scheduler.session], ?_⟩ after
      unfold Server.tryLock at granted ⊢
      split_ifs at granted ⊢ <;> simp_all
  | answers asked alive => simpa using Scheduler.credit_answered sound before asked
  | alreadyHeld here idle kept =>
    simp only [Sound, here] at sound
    simp [(sound.1 idle).1] at kept
  | @lockReplyLost _ _ s granted kept here =>
    cases kept <;> cases granted <;> simp [Scheduler.credit, here, Pc.credit, Event.isTick]
  | pidFails kept here => cases kept <;> simp [Scheduler.credit, here, Pc.credit, Event.isTick]
  | checks here active | due here more =>
    simp only [Sound, here] at sound
    have worthless := sound.2.credit
    simp [Scheduler.credit, Pc.credit, worthless]
  | @checkFails _ _ asker s answer asked =>
    have worthless : Check.credit ⟨asker, s, some false⟩ ≤ p.check.elim 0 Check.credit := by
      cases asker <;> exact Nat.zero_le _
    simpa [Scheduler.credit] using p.pc.credit_mono worthless
  | tickAnswered answered =>
    have worthless : (none : Option Check).elim 0 Check.credit ≤ p.check.elim 0 Check.credit :=
      Nat.zero_le _
    simpa [Scheduler.credit] using p.pc.credit_mono worthless
  | _ => simp_all [Scheduler.credit, Pc.credit, Event.isTick, Check.credit]

end Credit

section Worlds
variable {w w' : World} {events before : List (Nat × Event)} {other : Nat}

def startsTick (me : Nat) (e : Nat × Event) : Bool := e.1 = me && e.2.isTick

theorem step_pays {event : Option (Nat × Event)} (good : w.Good)
    (lost : ¬ w.Holds me) (still : ¬ w'.Holds me) (step : Step ticks w event w') :
    event.toList.countP (startsTick me) + (w'.procs me).credit ≤ (w.procs me).credit := by
  cases step with
  | @moves mover event server p move =>
    by_cases same : me = mover
    · subst same
      have pays := move.pays (good me).1 lost (by simpa [World.Holds] using still)
      cases event <;> simpa [startsTick, List.countP_cons] using pays
    · cases event <;> simp [startsTick, Function.update_of_ne same, Ne.symm same]
  | dies s => simp

theorem not_holds {w : World} {me : Nat} (vacant : w.server.holder = none) : ¬ w.Holds me := by
  rintro ⟨s, _, holds⟩
  cases vacant.symm.trans holds

theorem stale_ticks (good : w.Good) (lost : RunIn (Step ticks) (fun w => ¬ w.Holds me) w events w') :
    events.countP (startsTick me) ≤ 1 := by
  have paid : events.countP (startsTick me) ≤ (w.procs me).credit :=
    lost.count_le_credit World.Good (startsTick me) (fun w : World => (w.procs me).credit)
      (fun _ _ _ good step => good_step good step)
      (fun _ _ _ good here there step => step_pays good here there step) good
  exact Nat.le_trans paid Scheduler.credit_le_one

/-- From the moment its session lost the lock a scheduler starts one more tick at most, until it
acquires the lock again, whatever the other schedulers and the environment do. -/
theorem one_stale_tick (reached : RunIn (Step ticks) (fun _ => True) World.start before w)
    (lost : RunIn (Step ticks) (fun w => ¬ w.Holds me) w events w') :
    events.countP (startsTick me) ≤ 1 :=
  stale_ticks (good_of_run reached) lost

theorem outlived : ∃ w w', RunIn (Step 1) (fun _ => True) World.start [] w ∧
    RunIn (Step 1) (fun w => ¬ w.Holds 0) w [(0, .tick 0)] w' :=
  ⟨_, _,
    .cons trivial (@Step.moves 1 _ 0 none _ _ (.connects rfl rfl rfl)) <|
    .cons trivial (@Step.moves 1 _ 0 none _ _ (.opens rfl)) <|
    .cons trivial (@Step.moves 1 _ 0 none _ _ (.locks rfl rfl)) <|
    .cons trivial (@Step.moves 1 _ 0 none _ _ (.granted rfl)) <|
    .cons trivial (@Step.moves 1 _ 0 none _ _ (.acquired rfl rfl)) <|
    .cons trivial (@Step.moves 1 _ 0 none _ _ (.maintains rfl)) <|
    .cons trivial (@Step.dies 1 _ ⟨0, 0⟩) <|
    .nil trivial,
    .cons (by exact not_holds rfl) (@Step.moves 1 _ 0 (some (.tick 0)) _ _ (.starts rfl)) <|
    .nil (by exact not_holds rfl)⟩

theorem one_stale_tick_outlived : [(0, Event.tick 0)].countP (startsTick 0) ≤ 1 := by
  obtain ⟨_, _, reached, lost⟩ := outlived
  exact one_stale_tick reached lost

/-- While one scheduler holds the lock, each other one starts one more tick at most. -/
theorem singleton_ticks (reached : RunIn (Step ticks) (fun _ => True) World.start before w)
    (holding : RunIn (Step ticks) (fun w => w.Holds me) w events w') (apart : other ≠ me) :
    events.countP (startsTick other) ≤ 1 := by
  have good := good_of_run reached
  have along := holding.strengthen World.Good (fun _ _ _ good step => good_step good step) good
  refine stale_ticks good (along.weaken fun v both theirs => ?_)
  exact apart (both.2.holder_unique theirs both.1)

/-- Scheduler 1 has lost the lock to scheduler 0 when it starts its tick. -/
theorem overtaken : ∃ w w', RunIn (Step 1) (fun _ => True) World.start [] w ∧
    RunIn (Step 1) (fun w => w.Holds 0) w [(1, .tick 0)] w' :=
  ⟨_, _,
    .cons trivial (@Step.moves 1 _ 1 none _ _ (.connects rfl rfl rfl)) <|
    .cons trivial (@Step.moves 1 _ 1 none _ _ (.opens rfl)) <|
    .cons trivial (@Step.moves 1 _ 1 none _ _ (.locks rfl rfl)) <|
    .cons trivial (@Step.moves 1 _ 1 none _ _ (.granted rfl)) <|
    .cons trivial (@Step.moves 1 _ 1 none _ _ (.acquired rfl rfl)) <|
    .cons trivial (@Step.moves 1 _ 1 none _ _ (.maintains rfl)) <|
    .cons trivial (@Step.dies 1 _ ⟨1, 0⟩) <|
    .cons trivial (@Step.moves 1 _ 0 none _ _ (.connects rfl rfl rfl)) <|
    .cons trivial (@Step.moves 1 _ 0 none _ _ (.opens rfl)) <|
    .cons trivial (@Step.moves 1 _ 0 none _ _ (.locks rfl rfl)) <|
    .nil trivial,
    .cons ⟨⟨0, 0⟩, rfl, rfl⟩ (@Step.moves 1 _ 1 (some (.tick 0)) _ _ (.starts rfl)) <|
    .nil ⟨⟨0, 0⟩, rfl, by decide⟩⟩

theorem singleton_ticks_overtaken : [(1, Event.tick 0)].countP (startsTick 1) ≤ 1 := by
  obtain ⟨_, _, reached, holding⟩ := overtaken
  exact singleton_ticks reached holding (by decide)

end Worlds

end Collector.Workers.Singleton
