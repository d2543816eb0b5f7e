import Collector.Lib.RelyGuarantee
import Collector.Lib.Script

/-!
Processes over a READ COMMITTED database. A process is a script: it asks the world or it asks for a
transaction, and goes on with the answer. Transactions are verified as before, but a call may have a
precondition that its process has to establish from what its earlier transactions answered; these
answers are remembered as facts that nobody can undo.
-/

namespace Collector.Lib

/-- What a process asks: something of the world, or a transaction. -/
inductive Demand (W Call : Type) where
  | world (q : W)
  | transact (call : Call)
  deriving DecidableEq, Repr

@[reducible] def Reply {W Call : Type} (B : W → Type) (answer : Type) : Demand W Call → Type
  | .world q => B q
  | .transact _ => answer

/-- A process as a script. -/
abbrev ProcessScript {W : Type} (B : W → Type) (ε α Call β : Type) :=
  Script (Demand W Call) (Reply B (Except ε α)) β

/-- What a process asked so far, with the answers, the newest first. -/
abbrev ProcessPast {W : Type} (B : W → Type) (ε α Call : Type) :=
  List (Sigma fun demand : Demand W Call => Reply B (Except ε α) demand)

structure Process {W : Type} (B : W → Type) (ε α Call β : Type) where
  past : ProcessPast B ε α Call
  left : ProcessScript B ε α Call β

/-- Any number of processes; the transaction of process `t` is session `t` of the system. -/
structure Processes {W : Type} (B : W → Type) (σ κ ε α Call β : Type) where
  sys : System σ κ ε α Call
  procs : Nat → Process B ε α Call β

namespace Processes
variable {W : Type} {B : W → Type} {σ κ ε α Call β : Type}

def start (c : σ) (main : Nat → ProcessScript B ε α Call β) : Processes B σ κ ε α Call β :=
  ⟨.idle c, fun t => ⟨[], main t⟩⟩

def put (s : Processes B σ κ ε α Call β) (t : Nat) (p : Process B ε α Call β) :
    Processes B σ κ ε α Call β := { s with procs := Function.update s.procs t p }

variable (program : Call → Txn σ κ ε α)

/-- One step of one process; the end of a transaction is reported with the process. -/
inductive Step (s : Processes B σ κ ε α Call β) :
    Option (Nat × Ended σ ε α Call) → Processes B σ κ ε α Call β → Prop where
  | world {t : Nat} {past : ProcessPast B ε α Call} {q : W} {next : B q → ProcessScript B ε α Call β} :
      s.procs t = ⟨past, .ask (.world q) next⟩ → (a : B q) →
      Step s none (s.put t ⟨⟨.world q, a⟩ :: past, next a⟩)
  | begins {t : Nat} {past : ProcessPast B ε α Call} {call : Call}
      {next : Except ε α → ProcessScript B ε α Call β} :
      s.procs t = ⟨past, .ask (.transact call) next⟩ → s.sys.live t = none →
      Step s none { s with sys := s.sys.put t ⟨call, program call, [], id⟩ }
  | inside {t : Nat} {session later : Session σ κ ε α Call} {sys : System σ κ ε α Call} :
      s.sys.live t = some session → System.Step program s.sys none sys → sys.live t = some later →
      later.call = session.call → (∀ u, u ≠ t → sys.live u = s.sys.live u) →
      Step s none { s with sys }
  | ends {t : Nat} {past : ProcessPast B ε α Call} {call : Call}
      {next : Except ε α → ProcessScript B ε α Call β} {session : Session σ κ ε α Call}
      {entry : Ended σ ε α Call} {sys : System σ κ ε α Call} :
      s.procs t = ⟨past, .ask (.transact call) next⟩ → s.sys.live t = some session →
      System.Step program s.sys (some entry) sys → sys.live t = none →
      Step s (some (t, entry))
        { s.put t ⟨⟨.transact call, entry.outcome⟩ :: past, next entry.outcome⟩ with sys }

/-- Any interleaving of the steps of the processes, with the transactions that ended. -/
inductive Run (c : σ) (main : Nat → ProcessScript B ε α Call β) :
    List (Nat × Ended σ ε α Call) → Processes B σ κ ε α Call β → Prop where
  | nil : Run c main [] (start c main)
  | step {log : List (Nat × Ended σ ε α Call)} {s next : Processes B σ κ ε α Call β}
      {ended : Option (Nat × Ended σ ε α Call)} :
      Run c main log s → Step program s ended next → Run c main (ended.toList ++ log) next

end Processes

/-- What each call needs when it starts, does when it ends, and leaves behind for good. -/
structure Contract {σ κ ε α Call : Type} (d : Discipline σ κ) (program : Call → Txn σ κ ε α) where
  pre : Call → σ → Prop
  post : Call → Except ε α → σ → σ → Prop
  fact : Call → Except ε α → σ → Prop
  pre_stable : ∀ call a b, pre call a → d.rely [] a b → pre call b
  fact_stable : ∀ call r a b, fact call r a → d.rely [] a b → fact call r b
  verified : ∀ call c, d.inv c → pre call c → d.wp (d.Ends (post call)) (program call) [] id c
  learned : ∀ call r a b, post call r a b → fact call r b

section
variable {W : Type} {B : W → Type} {σ κ ε α Call β : Type} {d : Discipline σ κ}
  {program : Call → Txn σ κ ε α}

/-- The transactions of a process, the newest first. -/
def transactions (past : ProcessPast B ε α Call) : List (Call × Except ε α) :=
  past.filterMap fun
    | ⟨.world _, _⟩ => none
    | ⟨.transact call, r⟩ => some (call, r)

theorem transactions_transact (call : Call) (r : Except ε α) (past : ProcessPast B ε α Call) :
    transactions (⟨.transact call, r⟩ :: past) = (call, r) :: transactions past := rfl

namespace Contract
variable (k : Contract d program)

/-- What the transactions of a process answered still holds. -/
def Known (past : ProcessPast B ε α Call) (c : σ) : Prop :=
  ∀ call r, (call, r) ∈ transactions past → k.fact call r c

/-- A process asks only for what it has established. -/
def Entitled (main : ProcessScript B ε α Call β) : Prop :=
  ∀ past call next, main.Run past (.ask (.transact call) next) →
    ∀ c, d.inv c → k.Known past c → k.pre call c

/-- The state of a run of processes. -/
structure Sound (main : Nat → ProcessScript B ε α Call β) (log : List (Nat × Ended σ ε α Call))
    (s : Processes B σ κ ε α Call β) : Prop where
  kept : d.Kept k.post s.sys
  ran : ∀ t, (main t).Run (s.procs t).past (s.procs t).left
  asking : ∀ t session, s.sys.live t = some session →
    ∃ next, (s.procs t).left = .ask (.transact session.call) next
  known : ∀ t, k.Known (s.procs t).past s.sys.committed
  explained : ∀ e ∈ log, d.Explained k.post s.sys.committed e.2
  logged : ∀ t, transactions (s.procs t).past =
    (log.filter fun e => e.1 = t).map fun e => (e.2.call, e.2.outcome)

variable {k} {main : Nat → ProcessScript B ε α Call β} {log : List (Nat × Ended σ ε α Call)}
  {s next : Processes B σ κ ε α Call β}

theorem Known.later {past : ProcessPast B ε α Call} {a b : σ} (known : k.Known past a)
    (moved : d.rely [] a b) : k.Known past b :=
  fun call r member => k.fact_stable call r a b (known call r member) moved

/-- The moves of one process that leave the database alone. -/
theorem Sound.world (sound : k.Sound main log s) {t : Nat} {past : ProcessPast B ε α Call} {q : W}
    {rest : B q → ProcessScript B ε α Call β} (here : s.procs t = ⟨past, .ask (.world q) rest⟩) (a : B q) :
    k.Sound main log (s.put t ⟨⟨.world q, a⟩ :: past, rest a⟩) := by
  have ran := sound.ran t
  have known := sound.known t
  have logged := sound.logged t
  rw [here] at ran known logged
  refine { sound with ran := ?_, asking := ?_, known := ?_, logged := ?_ }
  · intro u
    by_cases same : u = t
    · subst same
      simpa [Processes.put] using ran.step a
    · simpa [Processes.put, same] using sound.ran u
  · intro u session live
    obtain ⟨next, asks⟩ := sound.asking u session live
    by_cases same : u = t
    · subst same
      rw [here] at asks
      cases asks
    · exact ⟨next, by simpa [Processes.put, same] using asks⟩
  · intro u
    by_cases same : u = t
    · subst same
      simpa [Processes.put, Known, transactions] using known
    · simpa [Processes.put, same] using sound.known u
  · intro u
    by_cases same : u = t
    · subst same
      simpa [Processes.put, transactions] using logged
    · simpa [Processes.put, same] using sound.logged u

/-- A process that asks for a transaction may start it. -/
theorem Sound.begins (entitled : ∀ t, k.Entitled (main t)) (sound : k.Sound main log s) {t : Nat}
    {past : ProcessPast B ε α Call} {call : Call} {rest : Except ε α → ProcessScript B ε α Call β}
    (here : s.procs t = ⟨past, .ask (.transact call) rest⟩) (free : s.sys.live t = none) :
    k.Sound main log { s with sys := s.sys.put t ⟨call, program call, [], id⟩ } := by
  have ran := sound.ran t
  have known := sound.known t
  rw [here] at ran known
  refine { sound with kept := ?_, asking := ?_ }
  · apply sound.kept.move _ (.start call free)
    intro u other _ same c valid moved
    have started : some (⟨other, program other, [], id⟩ : Session σ κ ε α Call) =
        (s.sys.put t ⟨call, program call, [], id⟩).live u := by
      rw [same, System.put]
      simp
    by_cases own : u = t
    · subst own
      simp only [System.put, Function.update_self, Option.some.injEq, Session.mk.injEq] at started
      rw [started.1]
      exact k.verified call c valid (entitled u past call rest ran c valid (known.later moved))
    · -- No other session is new.
      simp only [System.put, Function.update_of_ne own] at started
      rename_i absent
      rw [absent] at started
      cases started
  · intro u session live
    by_cases own : u = t
    · subst own
      simp only [System.put, Function.update_self, Option.some.injEq] at live
      subst live
      exact ⟨rest, by rw [here]⟩
    · simp only [System.put, Function.update_of_ne own] at live
      exact sound.asking u session live

/-- A step inside a transaction. -/
theorem Sound.inside (sound : k.Sound main log s) {t : Nat} {session later : Session σ κ ε α Call}
    {sys : System σ κ ε α Call} (live : s.sys.live t = some session)
    (step : System.Step program s.sys none sys) (still : sys.live t = some later)
    (call : later.call = session.call) (others : ∀ u, u ≠ t → sys.live u = s.sys.live u) :
    k.Sound main log { s with sys } := by
  have committed : sys.committed = s.sys.committed := Discipline.committed_of_step_none step
  refine { sound with kept := ?_, asking := ?_, known := ?_, explained := ?_ }
  · apply sound.kept.move _ step
    intro u other absent same
    by_cases own : u = t
    · subst own
      rw [live] at absent
      cases absent
    · have started := others u own
      rw [absent, same, System.put] at started
      simp at started
  · intro u other alive
    by_cases own : u = t
    · subst own
      obtain ⟨next, asks⟩ := sound.asking u session live
      rw [still] at alive
      cases alive
      rw [call]
      exact ⟨next, asks⟩
    · exact sound.asking u other (by rwa [others u own] at alive)
  · intro u
    change k.Known _ sys.committed
    rw [committed]
    exact sound.known u
  · intro e member
    change d.Explained _ sys.committed _
    rw [committed]
    exact sound.explained e member

/-- The end of a transaction: its process goes on with the answer. -/
theorem Sound.ends (sound : k.Sound main log s) {t : Nat} {past : ProcessPast B ε α Call} {call : Call}
    {rest : Except ε α → ProcessScript B ε α Call β} {session : Session σ κ ε α Call}
    {entry : Ended σ ε α Call} {sys : System σ κ ε α Call}
    (here : s.procs t = ⟨past, .ask (.transact call) rest⟩) (live : s.sys.live t = some session)
    (step : System.Step program s.sys (some entry) sys) (closed : sys.live t = none) :
    k.Sound main ((t, entry) :: log)
      { s.put t ⟨⟨.transact call, entry.outcome⟩ :: past, rest entry.outcome⟩ with sys } := by
  have ran := sound.ran t
  have known := sound.known t
  have logged := sound.logged t
  obtain ⟨_, asks⟩ := sound.asking t session live
  rw [here] at ran known logged asks
  -- The session that ended is the one of this process.
  have own : entry.call = call ∧ ∀ u, u ≠ t → sys.live u = s.sys.live u := by
    have mine (u : Nat) (other : Session σ κ ε α Call) (found : s.sys.live u = some other)
        (dropped : sys.live = Function.update s.sys.live u none) : u = t := by
      by_contra different
      rw [dropped, Function.update_of_ne (Ne.symm different), live] at closed
      cases closed
    cases step with
    | raise found =>
      obtain rfl := mine _ _ found rfl
      rw [live] at found
      cases found
      cases asks
      exact ⟨rfl, fun u different => Function.update_of_ne different _ _⟩
    | commit found =>
      obtain rfl := mine _ _ found rfl
      rw [live] at found
      cases found
      cases asks
      exact ⟨rfl, fun u different => Function.update_of_ne different _ _⟩
  obtain ⟨before, after, moved, said⟩ := sound.kept.ended step
  have still : d.Kept k.post sys := by
    apply sound.kept.move _ step
    intro u other absent same
    have started : sys.live u = some ⟨other, program other, [], id⟩ := by
      rw [same]
      exact Function.update_self u _ _
    by_cases self : u = t
    · rw [self, closed] at started
      cases started
    · rw [own.2 u self, absent] at started
      cases started
  have goes : d.rely [] s.sys.committed sys.committed := before ▸ after ▸ moved
  refine ⟨still, ?_, ?_, ?_, ?_, ?_⟩
  · intro u
    by_cases same : u = t
    · subst same
      simpa [Processes.put] using ran.step entry.outcome
    · simpa [Processes.put, same] using sound.ran u
  · intro u other alive
    have different : u ≠ t := by
      rintro rfl
      rw [closed] at alive
      cases alive
    simpa [Processes.put, different] using sound.asking u other (by rwa [own.2 u different] at alive)
  · intro u
    by_cases same : u = t
    · subst same
      intro other r member
      simp only [Processes.put, Function.update_self, transactions_transact] at member
      rcases List.mem_cons.mp member with same | member
      · have learned := k.learned entry.call entry.outcome entry.before entry.after said
        rw [own.1, after] at learned
        cases same
        exact learned
      · exact known.later goes other r member
    · simpa [Processes.put, same] using (sound.known u).later goes
  · intro e member
    rcases List.mem_cons.mp member with rfl | member
    · refine ⟨before ▸ sound.kept.inv, after ▸ still.inv, moved, said, ?_⟩
      rw [after]
      exact d.refl _ _
    · exact (sound.explained e member).later goes
  · intro u
    by_cases same : u = t
    · subst same
      simp [Processes.put, transactions, own.1, ← logged]
    · simpa [Processes.put, same, Ne.symm same] using sound.logged u

theorem Sound.step (entitled : ∀ t, k.Entitled (main t)) (sound : k.Sound main log s)
    {ended : Option (Nat × Ended σ ε α Call)} (step : Processes.Step program s ended next) :
    k.Sound main (ended.toList ++ log) next := by
  cases step with
  | world here a => exact sound.world here a
  | begins here free => exact sound.begins entitled here free
  | inside live step still call others => exact sound.inside live step still call others
  | ends here live step closed => exact sound.ends here live step closed

/-- Every run of processes that ask for what they may ask for is sound. -/
theorem sound_of_run (entitled : ∀ t, k.Entitled (main t)) {c : σ} (valid : d.inv c)
    (run : Processes.Run program c main log s) : k.Sound main log s := by
  induction run with
  | nil =>
    refine ⟨⟨valid, ?_, ?_⟩, fun _ => .nil, ?_, ?_, ?_, ?_⟩
    · intro t u mine theirs _ live
      cases live
    · intro t session live
      cases live
    · intro t session live
      cases live
    · intro t call r member
      cases member
    · exact fun _ member => absurd member List.not_mem_nil
    · exact fun _ => rfl
  | step _ step ih => exact ih.step entitled step

end Contract
end

end Collector.Lib
