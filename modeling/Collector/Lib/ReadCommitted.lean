import Mathlib.Data.List.Basic
import Mathlib.Logic.Function.Basic
import Mathlib.Tactic.Common

/-!
READ COMMITTED transactions with row locks. A transaction is a program of the points at which
others can get in between: it reads the committed data with its own writes over them, takes a
row lock, writes, and in the end commits or raises. Every read is a fresh snapshot, a lock
waits while another transaction holds a conflicting one, and locks are kept to the end of the
transaction. A lock name stands for a row or for an entry of a unique index.
-/

namespace Collector.Lib

/-- The row locks of PostgreSQL, weakest first. -/
inductive LockMode where
  | keyShare
  | share
  | noKeyUpdate
  | update
  deriving DecidableEq, Repr

def LockMode.conflicts : LockMode → LockMode → Bool
  | .keyShare, .update | .update, .keyShare => true
  | .keyShare, _ | _, .keyShare => false
  | .share, .share => false
  | _, _ => true

theorem LockMode.conflicts_comm (m n : LockMode) : m.conflicts n = n.conflicts m := by
  cases m <;> cases n <;> rfl

inductive Txn (σ κ ε α : Type) where
  | commit (answer : α)
  | raise (error : ε)
  | read (next : σ → Txn σ κ ε α)
  | lock (mode : LockMode) (row : κ) (next : Txn σ κ ε α)
  /-- `SKIP LOCKED`: the row is left out when it is not free. -/
  | tryLock (mode : LockMode) (row : κ) (next : Bool → Txn σ κ ε α)
  | write (change : σ → σ) (next : Txn σ κ ε α)

namespace Txn
variable {σ κ ε α β : Type}

/-- One transaction goes on where the other would have committed. -/
def bind : Txn σ κ ε α → (α → Txn σ κ ε β) → Txn σ κ ε β
  | .commit a, f => f a
  | .raise e, _ => .raise e
  | .read next, f => .read fun s => (next s).bind f
  | .lock mode row next, f => .lock mode row (next.bind f)
  | .tryLock mode row next, f => .tryLock mode row fun got => (next got).bind f
  | .write change next, f => .write change (next.bind f)

instance : Monad (Txn σ κ ε) where
  pure := .commit
  bind := .bind

/-- `SELECT` without a lock. -/
def view : Txn σ κ ε σ := .read .commit

def locked (mode : LockMode) (row : κ) : Txn σ κ ε Unit := .lock mode row (.commit ())

def modify (change : σ → σ) : Txn σ κ ε Unit := .write change (.commit ())

def ensure (condition : Bool) (e : ε) : Txn σ κ ε Unit :=
  if condition then .commit () else .raise e

def require (x : Option α) (e : ε) : Txn σ κ ε α :=
  match x with
  | some a => .commit a
  | none => .raise e

/-- `SELECT … FOR …` of at most one row. `look` finds the row that the condition matches and
`row` names its lock; after the wait the condition is checked again on the newest version. -/
def selectLocked (mode : LockMode) (row : κ) (look : σ → Option α) : Txn σ κ ε (Option α) := do
  match look (← view) with
  | none => pure none
  | some _ =>
    locked mode row
    return look (← view)

/-- `UPDATE … WHERE … RETURNING` over the rows that the statement's snapshot found, one after
the other: each is locked, and written only if the condition still holds for it. -/
def updateEach {ι : Type} (row : ι → κ) (still : σ → ι → Bool) (change : ι → σ → σ) :
    List ι → Txn σ κ ε (List ι)
  | [] => pure []
  | i :: rest => do
    locked .noKeyUpdate (row i)
    if still (← view) i then
      modify (change i)
      return i :: (← updateEach row still change rest)
    else
      updateEach row still change rest

/-- `INSERT` under a unique index: it waits for whoever holds the same entry. -/
def insertUnique (entry : κ) (taken : σ → Bool) (e : ε) : Txn σ κ ε Unit := do
  locked .update entry
  ensure (!taken (← view)) e

/-- A transaction on one part of the data, with the lock names of that part. -/
def zoom {part lockPart : Type} (get : σ → part) (put : part → σ → σ) (name : lockPart → κ) :
    Txn part lockPart ε α → Txn σ κ ε α
  | .commit a => .commit a
  | .raise e => .raise e
  | .read next => .read fun s => zoom get put name (next (get s))
  | .lock mode row next => .lock mode (name row) (zoom get put name next)
  | .tryLock mode row next => .tryLock mode (name row) fun got => zoom get put name (next got)
  | .write change next => .write (fun s => put (change (get s)) s) (zoom get put name next)

@[simp] theorem pure_bind (a : α) (f : α → Txn σ κ ε β) : (pure a >>= f : Txn σ κ ε β) = f a := rfl

theorem bind_assoc {γ : Type} (p : Txn σ κ ε α) (f : α → Txn σ κ ε β) (g : β → Txn σ κ ε γ) :
    (p >>= f) >>= g = p >>= fun a => f a >>= g := by
  change (p.bind f).bind g = p.bind fun a => (f a).bind g
  induction p with
  | commit a => rfl
  | raise e => rfl
  | read next ih => exact congrArg Txn.read (funext ih)
  | lock mode row next ih => exact congrArg (Txn.lock mode row) ih
  | tryLock mode row next ih => exact congrArg (Txn.tryLock mode row) (funext ih)
  | write change next ih => exact congrArg (Txn.write change) ih

end Txn

/-- A transaction under way: what it still has to do, its locks and its own writes. -/
structure Session (σ κ ε α Call : Type) where
  call : Call
  program : Txn σ κ ε α
  held : List (κ × LockMode)
  pending : σ → σ

structure System (σ κ ε α Call : Type) where
  committed : σ
  live : Nat → Option (Session σ κ ε α Call)

/-- A transaction that ended: what was called, how it ended and the committed data around it. -/
structure Ended (σ ε α Call : Type) where
  call : Call
  outcome : Except ε α
  before : σ
  after : σ

namespace System
variable {σ κ ε α Call : Type}

def idle (start : σ) : System σ κ ε α Call := ⟨start, fun _ => none⟩

def put (s : System σ κ ε α Call) (t : Nat) (session : Session σ κ ε α Call) :
    System σ κ ε α Call := { s with live := Function.update s.live t (some session) }

def drop (s : System σ κ ε α Call) (t : Nat) : System σ κ ε α Call :=
  { s with live := Function.update s.live t none }

/-- No other transaction holds a lock on the row that conflicts with `mode`. -/
def Free (s : System σ κ ε α Call) (t : Nat) (mode : LockMode) (row : κ) : Prop :=
  ∀ u other, u ≠ t → s.live u = some other → ∀ m, (row, m) ∈ other.held → mode.conflicts m = false

variable (program : Call → Txn σ κ ε α)

/-- One step of one transaction. The last one ends it from outside: a deadlock, a lost
connection, a statement timeout. -/
inductive Step (s : System σ κ ε α Call) :
    Option (Ended σ ε α Call) → System σ κ ε α Call → Prop where
  | start {t : Nat} (call : Call) : s.live t = none → Step s none (s.put t ⟨call, program call, [], id⟩)
  | read {t : Nat} {call : Call} {next : σ → Txn σ κ ε α} {held : List (κ × LockMode)}
      {pending : σ → σ} : s.live t = some ⟨call, .read next, held, pending⟩ →
      Step s none (s.put t ⟨call, next (pending s.committed), held, pending⟩)
  | lock {t : Nat} {call : Call} {mode : LockMode} {row : κ} {next : Txn σ κ ε α}
      {held : List (κ × LockMode)} {pending : σ → σ} :
      s.live t = some ⟨call, .lock mode row next, held, pending⟩ → s.Free t mode row →
      Step s none (s.put t ⟨call, next, (row, mode) :: held, pending⟩)
  | take {t : Nat} {call : Call} {mode : LockMode} {row : κ} {next : Bool → Txn σ κ ε α}
      {held : List (κ × LockMode)} {pending : σ → σ} :
      s.live t = some ⟨call, .tryLock mode row next, held, pending⟩ → s.Free t mode row →
      Step s none (s.put t ⟨call, next true, (row, mode) :: held, pending⟩)
  | skip {t : Nat} {call : Call} {mode : LockMode} {row : κ} {next : Bool → Txn σ κ ε α}
      {held : List (κ × LockMode)} {pending : σ → σ} :
      s.live t = some ⟨call, .tryLock mode row next, held, pending⟩ → ¬s.Free t mode row →
      Step s none (s.put t ⟨call, next false, held, pending⟩)
  | write {t : Nat} {call : Call} {change : σ → σ} {next : Txn σ κ ε α}
      {held : List (κ × LockMode)} {pending : σ → σ} :
      s.live t = some ⟨call, .write change next, held, pending⟩ →
      Step s none (s.put t ⟨call, next, held, change ∘ pending⟩)
  | raise {t : Nat} {call : Call} {e : ε} {held : List (κ × LockMode)} {pending : σ → σ} :
      s.live t = some ⟨call, .raise e, held, pending⟩ →
      Step s (some ⟨call, .error e, s.committed, s.committed⟩) (s.drop t)
  | commit {t : Nat} {call : Call} {a : α} {held : List (κ × LockMode)} {pending : σ → σ} :
      s.live t = some ⟨call, .commit a, held, pending⟩ →
      Step s (some ⟨call, .ok a, s.committed, pending s.committed⟩)
        { s.drop t with committed := pending s.committed }
  | cut {t : Nat} {session : Session σ κ ε α Call} :
      s.live t = some session → Step s none (s.drop t)

/-- Any interleaving of any number of transactions, with those that ended, newest first. -/
inductive Run (start : σ) : List (Ended σ ε α Call) → System σ κ ε α Call → Prop where
  | nil : Run start [] (idle start)
  | step {history : List (Ended σ ε α Call)} {s next : System σ κ ε α Call}
      {ended : Option (Ended σ ε α Call)} :
      Run start history s → Step program s ended next → Run start (ended.toList ++ history) next

end System

/-- The transaction with nobody else around. -/
def Txn.alone {σ κ ε α : Type} : Txn σ κ ε α → (σ → σ) → σ → Except ε α × σ
  | .commit a, pending, c => (.ok a, pending c)
  | .raise e, _, c => (.error e, c)
  | .read next, pending, c => (next (pending c)).alone pending c
  | .lock _ _ next, pending, c => next.alone pending c
  | .tryLock _ _ next, pending, c => (next true).alone pending c
  | .write change next, pending, c => next.alone (change ∘ pending) c

namespace Txn
variable {σ κ ε α β : Type} {pending other : σ → σ} {c : σ}

/-- A transaction alone reads what it wrote over the committed data, and nothing else. -/
theorem alone_congr {p : Txn σ κ ε α} (same : pending c = other c) :
    p.alone pending c = p.alone other c := by
  induction p generalizing pending other with
  | commit a => exact congrArg (Prod.mk _) same
  | raise e => rfl
  | read next ih =>
    simp only [Txn.alone, same]
    exact ih _ same
  | lock mode row next ih => exact ih same
  | tryLock mode row next ih => exact ih true same
  | write change next ih => exact ih (congrArg change same)

theorem alone_ensure {condition : Bool} {e : ε} {f : Unit → Txn σ κ ε β} :
    (ensure condition e >>= f).alone pending c =
      if condition then (f ()).alone pending c else (.error e, c) := by
  cases condition <;> rfl

/-- A transaction that ends well passed its check. -/
theorem ok_of_alone_ensure {condition : Bool} {e : ε} {f : Unit → Txn σ κ ε β} {answer : β}
    (ended : ((ensure condition e >>= f).alone pending c).1 = .ok answer) :
    condition = true ∧ ((f ()).alone pending c).1 = .ok answer := by
  rw [alone_ensure] at ended
  split at ended
  · rename_i passed
    exact ⟨passed, ended⟩
  · cases ended

theorem alone_selectLocked {mode : LockMode} {row : κ} {look : σ → Option α}
    {f : Option α → Txn σ κ ε β} :
    (selectLocked mode row look >>= f).alone pending c =
      (f (look (pending c))).alone pending c := by
  change ((match look (pending c) with
    | none => pure none
    | some _ => (do
      locked mode row
      return look (← view) : Txn σ κ ε (Option α)) : Txn σ κ ε (Option α)) >>= f).alone pending c = _
  cases here : look (pending c) with
  | none => rfl
  | some found =>
    change (f (look (pending c))).alone pending c = _
    rw [here]

end Txn

namespace System
variable {σ κ ε α Call : Type} {program : Call → Txn σ κ ε α}

theorem free_of_alone (c : σ) (session : Session σ κ ε α Call) (mode : LockMode) (row : κ) :
    ((idle c).put 0 session).Free 0 mode row := by
  intro u other different live
  simp only [put, idle, Function.update_of_ne different] at live
  cases live

theorem drop_put (c : σ) (session : Session σ κ ε α Call) :
    ((idle c).put 0 session).drop 0 = idle c := by
  have nobody : Function.update (fun _ : Nat => (none : Option (Session σ κ ε α Call))) 0 none =
      fun _ => none := Function.update_eq_self 0 _
  simp only [drop, put, idle, Function.update_idem, nobody]

theorem put_put (c : σ) (session next : Session σ κ ε α Call) :
    ((idle c).put 0 session).put 0 next = (idle c).put 0 next := by
  simp only [put, idle, Function.update_idem]

theorem live_put (c : σ) (session : Session σ κ ε α Call) :
    ((idle c).put 0 session).live 0 = some session := by
  simp only [put, Function.update_self]

/-- From where it stands, a transaction alone in the system runs to its end. -/
theorem Run.finish {start c : σ} {history : List (Ended σ ε α Call)} {call : Call}
    {held : List (κ × LockMode)} {pending : σ → σ} {p : Txn σ κ ε α}
    (run : Run program start history ((idle c).put 0 ⟨call, p, held, pending⟩)) :
    Run program start (⟨call, (p.alone pending c).1, c, (p.alone pending c).2⟩ :: history)
      (idle (p.alone pending c).2) := by
  induction p generalizing held pending with
  | commit a =>
    have next := run.step (.commit (live_put ..))
    rwa [drop_put] at next
  | raise e =>
    have next := run.step (.raise (live_put ..))
    rwa [drop_put] at next
  | read next ih =>
    have step := run.step (.read (live_put ..))
    rw [put_put] at step
    exact ih _ step
  | lock mode row next ih =>
    have step := run.step (.lock (live_put ..) (free_of_alone _ _ _ _))
    rw [put_put] at step
    exact ih step
  | tryLock mode row next ih =>
    have step := run.step (.take (live_put ..) (free_of_alone _ _ _ _))
    rw [put_put] at step
    exact ih true step
  | write change next ih =>
    have step := run.step (.write (live_put ..))
    rw [put_put] at step
    exact ih step

/-- The calls one after the other, oldest first. -/
def serially (program : Call → Txn σ κ ε α) (start : σ) (calls : List Call) :
    List (Ended σ ε α Call) × σ :=
  calls.foldl (fun (history, c) call =>
    let (outcome, after) := (program call).alone id c
    (⟨call, outcome, c, after⟩ :: history, after)) ([], start)

theorem run_serially (program : Call → Txn σ κ ε α) (start : σ) (calls : List Call) :
    Run program start (serially program start calls).1 (idle (serially program start calls).2) := by
  suffices extend : ∀ history c, Run program start history (idle c) →
      Run program start
        (calls.foldl (fun (history, c) call =>
          let (outcome, after) := (program call).alone id c
          (⟨call, outcome, c, after⟩ :: history, after)) (history, c)).1
        (idle (calls.foldl (fun (history, c) call =>
          let (outcome, after) := (program call).alone id c
          ((⟨call, outcome, c, after⟩ :: history : List (Ended σ ε α Call)), after))
          (history, c)).2) from extend [] start .nil
  induction calls with
  | nil => exact fun _ _ run => run
  | cons call calls ih =>
    intro history c run
    have started := run.step (.start call (t := 0) rfl)
    exact ih _ _ started.finish

end System
end Collector.Lib
