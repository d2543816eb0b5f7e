import Collector.Lib.RelyGuarantee

/-!
Runs under a condition on what a transaction finds when a lock is granted to it. Such a run is also
a run of transactions that look at the data as soon as they have the lock and give up when the
condition fails; these can be verified like any others, with the condition known after each lock.
-/

namespace Collector.Lib
variable {σ κ ε α β Call : Type}

/-- The transaction that looks after each lock whether the rest of it finds what `fresh` asks. -/
noncomputable def Txn.checked (fresh : Txn σ κ ε α → σ → Prop) (stale : ε) : Txn σ κ ε α → Txn σ κ ε α
  | .commit a => .commit a
  | .raise e => .raise e
  | .read next => .read fun c => (next c).checked fresh stale
  | .lock mode row next => .lock mode row (.read fun c =>
      open Classical in if fresh next c then next.checked fresh stale else .raise stale)
  | .tryLock mode row next => .tryLock mode row fun got => (next got).checked fresh stale
  | .write change next => .write change (next.checked fresh stale)

/-- A transaction that takes no lock it has to wait for. -/
def Txn.LockFree : Txn σ κ ε α → Prop
  | .commit _ | .raise _ => True
  | .read next => ∀ c, (next c).LockFree
  | .lock _ _ _ => False
  | .tryLock _ _ next => ∀ got, (next got).LockFree
  | .write _ next => next.LockFree

theorem Txn.checked_of_lockFree {fresh : Txn σ κ ε α → σ → Prop} {stale : ε} {p : Txn σ κ ε α}
    (free : p.LockFree) : p.checked fresh stale = p := by
  induction p with
  | commit a => rfl
  | raise e => rfl
  | read next ih => exact congrArg Txn.read (funext fun c => ih c (free c))
  | lock mode row next => exact free.elim
  | tryLock mode row next ih => exact congrArg (Txn.tryLock mode row) (funext fun got => ih got (free got))
  | write change next ih => exact congrArg (Txn.write change) (ih free)

theorem Txn.LockFree.bind {p : Txn σ κ ε α} {f : α → Txn σ κ ε β} (first : p.LockFree)
    (rest : ∀ a, (f a).LockFree) : (p >>= f).LockFree := by
  change (p.bind f).LockFree
  induction p with
  | commit a => exact rest a
  | raise e => trivial
  | read next ih => exact fun c => ih c (first c)
  | lock mode row next => exact first.elim
  | tryLock mode row next ih => exact fun got => ih got (first got)
  | write change next ih => exact ih first

theorem Txn.lockFree_ensure {condition : Bool} {e : ε} :
    (Txn.ensure condition e : Txn σ κ ε Unit).LockFree := by
  cases condition <;> trivial

theorem Txn.lockFree_view {f : σ → Txn σ κ ε β} (rest : ∀ c, (f c).LockFree) :
    (Txn.view >>= f).LockFree := rest

theorem Txn.lockFree_modify {change : σ → σ} {f : Unit → Txn σ κ ε β} (rest : (f ()).LockFree) :
    (Txn.modify change >>= f).LockFree := rest

section
variable {fresh : Txn σ κ ε β → σ → Prop} {stale : ε}

theorem Txn.checked_ensure {condition : Bool} {e : ε} {f : Unit → Txn σ κ ε β} :
    (Txn.ensure condition e >>= f).checked fresh stale =
      Txn.ensure condition e >>= fun u => (f u).checked fresh stale := by
  cases condition <;> rfl

theorem Txn.checked_view {f : σ → Txn σ κ ε β} : (Txn.view >>= f).checked fresh stale =
    Txn.view >>= fun c => (f c).checked fresh stale := rfl

open Classical in
theorem Txn.checked_locked {mode : LockMode} {row : κ} {f : Unit → Txn σ κ ε β} :
    (Txn.locked mode row >>= f).checked fresh stale = Txn.locked mode row >>= fun u =>
      Txn.view >>= fun c => if fresh (f u) c then (f u).checked fresh stale else .raise stale := rfl

end

namespace System

/-- Whoever is granted a lock finds the data as `fresh` asks of its call and of what it still has to
do. -/
def Grants (fresh : Call → Txn σ κ ε α → σ → Prop) (s next : System σ κ ε α Call) : Prop :=
  ∀ t call mode row rest held pending, s.live t = some ⟨call, .lock mode row rest, held, pending⟩ →
    next.live t = some ⟨call, rest, (row, mode) :: held, pending⟩ → fresh call rest (pending s.committed)

/-- A run all of whose grants meet the condition. -/
inductive RunWhere (program : Call → Txn σ κ ε α) (fresh : Call → Txn σ κ ε α → σ → Prop) (start : σ) :
    List (Ended σ ε α Call) → System σ κ ε α Call → Prop where
  | nil : RunWhere program fresh start [] (idle start)
  | step {history : List (Ended σ ε α Call)} {s next : System σ κ ε α Call}
      {ended : Option (Ended σ ε α Call)} : RunWhere program fresh start history s →
      Step program s ended next → Grants fresh s next →
      RunWhere program fresh start (ended.toList ++ history) next

theorem RunWhere.run {program : Call → Txn σ κ ε α} {fresh : Call → Txn σ κ ε α → σ → Prop} {start : σ}
    {history : List (Ended σ ε α Call)} {s : System σ κ ε α Call}
    (where_ : RunWhere program fresh start history s) : Run program start history s := by
  induction where_ with
  | nil => exact .nil
  | step _ step _ ih => exact ih.step step

section Checked
variable {fresh : Call → Txn σ κ ε α → σ → Prop} {stale : ε} {s : System σ κ ε α Call}

noncomputable def checked (fresh : Call → Txn σ κ ε α → σ → Prop) (stale : ε) (s : System σ κ ε α Call) :
    System σ κ ε α Call :=
  ⟨s.committed, fun t => (s.live t).map fun session =>
    { session with program := session.program.checked (fresh session.call) stale }⟩

theorem checked_live {t : Nat} {session : Session σ κ ε α Call} (live : s.live t = some session) :
    (s.checked fresh stale).live t =
      some { session with program := session.program.checked (fresh session.call) stale } := by
  show (s.live t).map _ = _
  rw [live]
  rfl

theorem checked_put (t : Nat) (session : Session σ κ ε α Call) :
    (s.put t session).checked fresh stale = (s.checked fresh stale).put t
      { session with program := session.program.checked (fresh session.call) stale } := by
  unfold checked put
  congr 1
  funext u
  simp only [Function.update_apply]
  split <;> rfl

theorem checked_drop (t : Nat) :
    (s.drop t).checked fresh stale = (s.checked fresh stale).drop t := by
  unfold checked drop
  congr 1
  funext u
  simp only [Function.update_apply]
  split <;> rfl

theorem Free.checked {t : Nat} {mode : LockMode} {row : κ} (free : s.Free t mode row) :
    (s.checked fresh stale).Free t mode row := by
  intro u other different live m member
  obtain ⟨session, alive, rfl⟩ := Option.map_eq_some_iff.mp live
  exact free u session different alive m member

theorem not_free_checked {t : Nat} {mode : LockMode} {row : κ} (busy : ¬s.Free t mode row) :
    ¬(s.checked fresh stale).Free t mode row := by
  intro free
  apply busy
  intro u other different live m member
  exact free u _ different (checked_live live) m member

/-- A run whose grants are fresh is a run of the checked transactions. -/
theorem RunWhere.checked {program : Call → Txn σ κ ε α} (stale : ε) {start : σ}
    {history : List (Ended σ ε α Call)} (where_ : RunWhere program fresh start history s) :
    Run (fun call => (program call).checked (fresh call) stale) start history (s.checked fresh stale) := by
  induction where_ with
  | nil => exact .nil
  | @step history s next ended before step grants ih =>
    cases step with
    | start call idle =>
      rw [checked_put]
      apply ih.step
      apply Step.start call
      show (s.live _).map _ = none
      rw [idle]
      rfl
    | read live =>
      rw [checked_put]
      exact ih.step (.read (checked_live live))
    | @lock t call mode row rest held pending live free =>
      have found := grants t call mode row rest held pending live (Function.update_self ..)
      -- The check is made at once, before anybody else moves.
      have locked := ih.step (.lock (checked_live live) free.checked)
      have looked := locked.step (.read (t := t) (Function.update_self ..))
      rw [checked_put]
      simpa [put, Function.update_idem, found, System.checked] using looked
    | take live free =>
      rw [checked_put]
      exact ih.step (.take (checked_live live) free.checked)
    | skip live busy =>
      rw [checked_put]
      exact ih.step (.skip (checked_live live) (not_free_checked busy))
    | @write t call change rest held pending live =>
      have written := ih.step (.write (checked_live live))
      rw [checked_put]
      exact written
    | raise live =>
      rw [checked_drop]
      exact ih.step (.raise (checked_live live))
    | commit live =>
      have committed := ih.step (.commit (checked_live live))
      rw [← checked_drop] at committed
      exact committed
    | cut live =>
      rw [checked_drop]
      exact ih.step (.cut (checked_live live))

end Checked

/-! ## One transaction after the other -/

/-- Alone in the system the transaction finds what `fresh` asks whenever it is granted a lock. -/
def AloneMeets (fresh : Txn σ κ ε α → σ → Prop) : Txn σ κ ε α → (σ → σ) → σ → Prop
  | .commit _, _, _ => True
  | .raise _, _, _ => True
  | .read next, pending, c => AloneMeets fresh (next (pending c)) pending c
  | .lock _ _ next, pending, c => fresh next (pending c) ∧ AloneMeets fresh next pending c
  | .tryLock _ _ next, pending, c => AloneMeets fresh (next true) pending c
  | .write change next, pending, c => AloneMeets fresh next (change ∘ pending) c

theorem aloneMeets_of_lockFree {fresh : Txn σ κ ε α → σ → Prop} {p : Txn σ κ ε α} (free : p.LockFree)
    (pending : σ → σ) (c : σ) : AloneMeets fresh p pending c := by
  induction p generalizing pending with
  | commit a => trivial
  | raise e => trivial
  | read next ih => exact ih _ (free _) pending
  | lock mode row next => exact free.elim
  | tryLock mode row next ih => exact ih true (free true) pending
  | write change next ih => exact ih free _

theorem aloneMeets_ensure {fresh : Txn σ κ ε β → σ → Prop} {condition : Bool} {e : ε}
    {f : Unit → Txn σ κ ε β} {pending : σ → σ} {c : σ} (rest : AloneMeets fresh (f ()) pending c) :
    AloneMeets fresh (Txn.ensure condition e >>= f) pending c := by
  cases condition with
  | true => exact rest
  | false => trivial

section Alone
variable {fresh : Call → Txn σ κ ε α → σ → Prop} {program : Call → Txn σ κ ε α} {start c : σ}
  {history : List (Ended σ ε α Call)} {call : Call} {held : List (κ × LockMode)} {pending : σ → σ}
  {p : Txn σ κ ε α}

theorem grants_alone {next : System σ κ ε α Call}
    (meets : ∀ mode row rest, p = .lock mode row rest → fresh call rest (pending c)) :
    Grants fresh ((idle c).put 0 ⟨call, p, held, pending⟩) next := by
  intro t call' mode row rest held' pending' live _
  by_cases own : t = 0
  · subst own
    rw [live_put] at live
    cases live
    exact meets mode row rest rfl
  · simp only [put, idle, Function.update_of_ne own] at live
    cases live

/-- From where it stands, a transaction alone in the system runs to its end. -/
theorem RunWhere.finish (meets : AloneMeets (fresh call) p pending c)
    (run : RunWhere program fresh start history ((idle c).put 0 ⟨call, p, held, pending⟩)) :
    RunWhere program fresh start (⟨call, (p.alone pending c).1, c, (p.alone pending c).2⟩ :: history)
      (idle (p.alone pending c).2) := by
  induction p generalizing held pending with
  | commit a =>
    have next := run.step (.commit (live_put ..)) (grants_alone nofun)
    rwa [drop_put] at next
  | raise e =>
    have next := run.step (.raise (live_put ..)) (grants_alone nofun)
    rwa [drop_put] at next
  | read next ih =>
    have step := run.step (.read (live_put ..)) (grants_alone nofun)
    rw [put_put] at step
    exact ih _ meets step
  | lock mode row next ih =>
    have step := run.step (.lock (live_put ..) (free_of_alone _ _ _ _)) (grants_alone ?_)
    · rw [put_put] at step
      exact ih meets.2 step
    · intro mode row rest same
      cases same
      exact meets.1
  | tryLock mode row next ih =>
    have step := run.step (.take (live_put ..) (free_of_alone _ _ _ _)) (grants_alone nofun)
    rw [put_put] at step
    exact ih true meets step
  | write change next ih =>
    have step := run.step (.write (live_put ..)) (grants_alone nofun)
    rw [put_put] at step
    exact ih meets step

/-- One transaction in an idle system. -/
theorem RunWhere.one (call : Call) (meets : AloneMeets (fresh call) (program call) id c)
    (run : RunWhere program fresh start history (idle c)) :
    RunWhere program fresh start
      (⟨call, ((program call).alone id c).1, c, ((program call).alone id c).2⟩ :: history)
      (idle ((program call).alone id c).2) := by
  have begun := run.step (.start call (t := 0) rfl) ?_
  · exact begun.finish meets
  · intro t call' mode row rest held pending live
    cases live

end Alone
end System
end Collector.Lib
