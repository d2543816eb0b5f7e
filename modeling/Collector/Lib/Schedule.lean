import Collector.Lib.ReadCommitted

/-!
Interleavings that can be computed. A bench is a system with finitely many sessions, in a list; a
schedule says whose turn it is. What a schedule plays is a run of the system.
-/

namespace Collector.Lib
variable {σ κ ε α Call : Type}

/-- Session `t` is entry `t` of the list. -/
structure Bench (σ κ ε α Call : Type) where
  committed : σ
  sessions : List (Option (Session σ κ ε α Call))

inductive Turn (Call : Type) where
  | start (t : Nat) (call : Call)
  | move (t : Nat)
  deriving DecidableEq, Repr

namespace Bench

def idle (n : Nat) (c : σ) : Bench σ κ ε α Call := ⟨c, List.replicate n none⟩

def live (b : Bench σ κ ε α Call) (t : Nat) : Option (Session σ κ ε α Call) := b.sessions[t]?.join

def system (b : Bench σ κ ε α Call) : System σ κ ε α Call := ⟨b.committed, b.live⟩

def put (b : Bench σ κ ε α Call) (t : Nat) (session : Option (Session σ κ ε α Call)) :
    Bench σ κ ε α Call := { b with sessions := b.sessions.set t session }

def free [DecidableEq κ] (b : Bench σ κ ε α Call) (t : Nat) (mode : LockMode) (row : κ) : Bool :=
  (List.range b.sessions.length).all fun u => decide (u = t) || (b.live u).all fun other =>
    other.held.all fun entry => !decide (entry.1 = row) || !mode.conflicts entry.2

/-- The next step of session `t`, unless it waits for a lock. -/
def move [DecidableEq κ] (b : Bench σ κ ε α Call) (t : Nat) :
    Option (Option (Ended σ ε α Call) × Bench σ κ ε α Call) :=
  match b.live t with
  | none => none
  | some ⟨call, .read next, held, pending⟩ =>
    some (none, b.put t (some ⟨call, next (pending b.committed), held, pending⟩))
  | some ⟨call, .lock mode row next, held, pending⟩ =>
    if b.free t mode row then some (none, b.put t (some ⟨call, next, (row, mode) :: held, pending⟩)) else none
  | some ⟨call, .tryLock mode row next, held, pending⟩ =>
    if b.free t mode row then
      some (none, b.put t (some ⟨call, next true, (row, mode) :: held, pending⟩))
    else some (none, b.put t (some ⟨call, next false, held, pending⟩))
  | some ⟨call, .write change next, held, pending⟩ =>
    some (none, b.put t (some ⟨call, next, held, change ∘ pending⟩))
  | some ⟨call, .raise e, _, _⟩ =>
    some (some ⟨call, .error e, b.committed, b.committed⟩, b.put t none)
  | some ⟨call, .commit a, _, pending⟩ =>
    some (some ⟨call, .ok a, b.committed, pending b.committed⟩,
      { b.put t none with committed := pending b.committed })

/-- One turn after the other, with the transactions that ended, newest first. -/
def play [DecidableEq κ] (program : Call → Txn σ κ ε α) :
    List (Turn Call) → List (Ended σ ε α Call) → Bench σ κ ε α Call →
      Option (List (Ended σ ε α Call) × Bench σ κ ε α Call)
  | [], history, b => some (history, b)
  | .start t call :: rest, history, b =>
    if t < b.sessions.length ∧ (b.live t).isNone then
      play program rest history (b.put t (some ⟨call, program call, [], id⟩))
    else none
  | .move t :: rest, history, b =>
    match b.move t with
    | none => none
    | some (ended, next) => play program rest (ended.toList ++ history) next

section
variable {b next : Bench σ κ ε α Call} {t : Nat}

theorem system_idle (n : Nat) (c : σ) :
    (idle n c : Bench σ κ ε α Call).system = System.idle c := by
  unfold system System.idle
  congr 1
  funext t
  show ((List.replicate n none)[t]?).join = none
  rw [List.getElem?_replicate]
  split <;> rfl

theorem lt_of_live {session : Session σ κ ε α Call} (live : b.live t = some session) :
    t < b.sessions.length := by
  by_contra outside
  rw [Bench.live, List.getElem?_eq_none (Nat.le_of_not_lt outside)] at live
  cases live

theorem live_put (inside : t < b.sessions.length) (session : Option (Session σ κ ε α Call)) :
    (b.put t session).live = Function.update b.live t session := by
  funext u
  rw [Function.update_apply]
  show ((b.sessions.set t session)[u]?).join = _
  rw [List.getElem?_set]
  by_cases same : u = t
  · subst same
    rw [if_pos rfl, if_pos inside, if_pos rfl]
    rfl
  · rw [if_neg (Ne.symm same), if_neg same]
    rfl

theorem system_put (inside : t < b.sessions.length) (session : Session σ κ ε α Call) :
    (b.put t (some session)).system = b.system.put t session := by
  unfold system System.put
  rw [live_put inside]
  rfl

theorem system_drop (inside : t < b.sessions.length) : (b.put t none).system = b.system.drop t := by
  unfold system System.drop
  rw [live_put inside]
  rfl

theorem free_iff [DecidableEq κ] {mode : LockMode} {row : κ} :
    b.free t mode row = true ↔ b.system.Free t mode row := by
  rw [free, List.all_eq_true]
  constructor
  · intro free u other different live m member
    have open_ := free u (List.mem_range.mpr (lt_of_live live))
    rw [show b.live u = some other from live] at open_
    simp only [decide_eq_false different, Bool.false_or, Option.all_some, List.all_eq_true] at open_
    simpa using open_ (row, m) member
  · intro free u _
    by_cases same : u = t
    · simp [same]
    · cases live : b.live u with
      | none => simp
      | some other =>
        simp only [decide_eq_false same, Bool.false_or, Option.all_some, List.all_eq_true]
        intro entry member
        by_cases here : entry.1 = row
        · have apart := free u other same live entry.2 (here ▸ member)
          simp [apart]
        · simp [here]

theorem move_step [DecidableEq κ] {program : Call → Txn σ κ ε α} {ended : Option (Ended σ ε α Call)}
    (moved : b.move t = some (ended, next)) : System.Step program b.system ended next.system := by
  unfold move at moved
  split at moved
  · cases moved
  · rename_i call rest held pending live
    cases moved
    rw [system_put (lt_of_live live)]
    exact .read live
  · rename_i call mode row rest held pending live
    split at moved
    · rename_i free
      cases moved
      rw [system_put (lt_of_live live)]
      exact .lock live (free_iff.mp free)
    · cases moved
  · rename_i call mode row rest held pending live
    split at moved
    · rename_i free
      cases moved
      rw [system_put (lt_of_live live)]
      exact .take live (free_iff.mp free)
    · rename_i busy
      cases moved
      rw [system_put (lt_of_live live)]
      exact .skip live (mt free_iff.mpr busy)
  · rename_i call change rest held pending live
    cases moved
    rw [system_put (lt_of_live live)]
    exact .write live
  · rename_i call e held pending live
    cases moved
    rw [system_drop (lt_of_live live)]
    exact .raise live
  · rename_i call a held pending live
    cases moved
    have dropped : (Bench.mk (pending b.committed) (b.put t none).sessions).system =
        { b.system.drop t with committed := pending b.system.committed } := by
      rw [← system_drop (lt_of_live live)]
      rfl
    rw [dropped]
    exact .commit live

/-- What a schedule plays is a run. -/
theorem run_play [DecidableEq κ] {program : Call → Txn σ κ ε α} {start : σ} {turns : List (Turn Call)}
    {history later : List (Ended σ ε α Call)} (run : System.Run program start history b.system)
    (played : play program turns history b = some (later, next)) :
    System.Run program start later next.system := by
  induction turns generalizing history b with
  | nil =>
    cases played
    exact run
  | cons turn rest ih =>
    cases turn with
    | start t call =>
      rw [play] at played
      split at played
      · rename_i ready
        apply ih _ played
        rw [system_put ready.1]
        exact run.step (.start call (Option.isNone_iff_eq_none.mp ready.2))
      · cases played
    | move t =>
      rw [play] at played
      split at played
      · cases played
      · rename_i ended after moved
        exact ih (run.step (move_step moved)) played

end
end Bench
end Collector.Lib
