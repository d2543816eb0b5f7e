import Mathlib.Data.List.Forall2
import Mathlib.Tactic.Common

/-!
Machines whose calls are transactions. A call reads the committed state and either raises or
answers with a new state; raising rolls everything back. A run is a serial order of calls of
any number of clients, kept with every outcome, newest first.
-/

namespace Collector.Lib

/-- A bind that answered: the first part answered and the rest answered on its value. -/
theorem Except.bind_eq_ok {ε α β : Type} {x : Except ε α} {f : α → Except ε β} {b : β} :
    (x >>= f) = .ok b ↔ ∃ a, x = .ok a ∧ f a = .ok b := by
  cases x with
  | error e => simp [bind, Except.bind]
  | ok a => simp [bind, Except.bind]

theorem Except.bind_eq_error {ε α β : Type} {x : Except ε α} {f : α → Except ε β} {e : ε} :
    (x >>= f) = .error e ↔ x = .error e ∨ ∃ a, x = .ok a ∧ f a = .error e := by
  cases x with
  | error e => simp [bind, Except.bind]
  | ok a => simp [bind, Except.bind]

/-- Another exception in place of the one raised. -/
@[simp] theorem Except.mapError_eq_ok {ε ε' α : Type} {x : Except ε α} {f : ε → ε'} {a : α} :
    x.mapError f = .ok a ↔ x = .ok a := by
  cases x <;> simp [Except.mapError]

/-- What is seen of the value of an answer is seen of an answer. -/
theorem Except.exists_of_toOption {ε α β γ : Type} {x : Except ε (α × β)} {f : α → γ} {c : γ}
    (seen : x.toOption.map (fun answer => f answer.1) = some c) :
    ∃ a b, x = .ok (a, b) ∧ f a = c := by
  cases x with
  | error e => cases seen
  | ok pair => exact ⟨pair.1, pair.2, rfl, Option.some.inj seen⟩

/-- A comprehension whose elements all answer is answered element by element. -/
theorem Except.mapM_eq_ok {ε α β : Type} {f : α → Except ε β} {R : α → β → Prop} {xs : List α}
    (each : ∀ x ∈ xs, ∃ y, f x = .ok y ∧ R x y) : ∃ ys, xs.mapM f = .ok ys ∧ List.Forall₂ R xs ys := by
  induction xs with
  | nil => exact ⟨[], rfl, .nil⟩
  | cons x xs ih =>
    obtain ⟨y, answered, related⟩ := each x List.mem_cons_self
    obtain ⟨ys, rest, all⟩ := ih fun x member => each x (List.mem_cons_of_mem _ member)
    refine ⟨y :: ys, ?_, .cons related all⟩
    rw [List.mapM_cons, answered, Except.bind_eq_ok]
    exact ⟨y, rfl, Except.bind_eq_ok.mpr ⟨ys, rest, rfl⟩⟩

theorem Except.map_eq_ok {ε α β : Type} {x : Except ε α} {f : α → β} {b : β} :
    x.map f = .ok b ↔ ∃ a, x = .ok a ∧ f a = b := by
  cases x with
  | error e => simp [Except.map]
  | ok a => simp [Except.map]

theorem Except.mapM_of_ok {ε α β : Type} {f : α → Except ε β} {g : α → β} {xs : List α}
    (each : ∀ x ∈ xs, f x = .ok (g x)) : xs.mapM f = .ok (xs.map g) := by
  induction xs with
  | nil => rfl
  | cons x xs ih =>
    rw [List.mapM_cons, each x List.mem_cons_self,
      ih fun x member => each x (List.mem_cons_of_mem _ member)]
    rfl

theorem Except.forall₂_of_mapM {ε α β : Type} {f : α → Except ε β} {xs : List α} {ys : List β}
    (mapped : xs.mapM f = .ok ys) : List.Forall₂ (fun x y => x ∈ xs ∧ f x = .ok y) xs ys := by
  induction xs generalizing ys with
  | nil =>
    cases mapped
    exact .nil
  | cons x xs ih =>
    rw [List.mapM_cons, Except.bind_eq_ok] at mapped
    obtain ⟨y, first, rest⟩ := mapped
    obtain ⟨others, all, same⟩ := Except.bind_eq_ok.mp rest
    cases same
    exact .cons ⟨List.mem_cons_self, first⟩
      ((ih all).imp fun _ _ both => ⟨List.mem_cons_of_mem _ both.1, both.2⟩)

/-- A comprehension over wrapped elements whose calls unwrap them and wrap their answers. -/
theorem Except.mapM_wrapped {ε α β γ δ : Type} {f : α → Except ε β} {g : γ → Except ε δ}
    {wrap : α → γ} {wrapped : β → δ} (each : ∀ x, g (wrap x) = (f x).map wrapped) (xs : List α) :
    (xs.map wrap).mapM g = (xs.mapM f).map (List.map wrapped) := by
  induction xs with
  | nil => rfl
  | cons x xs ih =>
    rw [List.map_cons, List.mapM_cons, List.mapM_cons, each, ih]
    cases f x with
    | error e => rfl
    | ok y =>
      cases xs.mapM f with
      | error e => rfl
      | ok ys => rfl

/-- Raises `e` unless the condition holds. -/
def ensure {ε : Type} (condition : Bool) (e : ε) : Except ε Unit :=
  if condition then .ok () else .error e

@[simp] theorem ensure_eq_ok {ε : Type} {condition : Bool} {e : ε} {u : Unit} :
    ensure condition e = .ok u ↔ condition = true := by
  unfold ensure
  cases condition <;> simp

@[simp] theorem ensure_eq_error {ε : Type} {condition : Bool} {e e' : ε} :
    ensure condition e = .error e' ↔ condition = false ∧ e = e' := by
  unfold ensure
  cases condition <;> simp

/-- The row a query must return; `e` when there is none. -/
def require {ε α : Type} (x : Option α) (e : ε) : Except ε α :=
  match x with
  | some a => .ok a
  | none => .error e

@[simp] theorem require_eq_ok {ε α : Type} {x : Option α} {e : ε} {a : α} :
    require x e = .ok a ↔ x = some a := by
  cases x <;> simp [require]

@[simp] theorem require_eq_error {ε α : Type} {x : Option α} {e e' : ε} :
    require x e = .error e' ↔ x = none ∧ e = e' := by
  cases x <;> simp [require]

/-- The result of one operation as an answer of a machine. -/
def answer {σ α Answer ε : Type} (wrap : α → Answer) (result : Except ε (α × σ)) :
    Except ε (Answer × σ) :=
  result.map fun (value, next) => (wrap value, next)

theorem answer_eq_ok {σ α Answer ε : Type} {wrap : α → Answer} {result : Except ε (α × σ)}
    {a : Answer} {next : σ} :
    answer wrap result = .ok (a, next) ↔ ∃ value, result = .ok (value, next) ∧ wrap value = a := by
  unfold answer
  cases result with
  | error e => simp [Except.map]
  | ok pair => simp [Except.map, Prod.ext_iff, and_comm, eq_comm]

structure Machine (σ Call Answer ε : Type) where
  exec : Call → σ → Except ε (Answer × σ)

structure Entry (Call Answer ε : Type) where
  call : Call
  outcome : Except ε Answer

namespace Machine
variable {σ Call Answer ε : Type} (m : Machine σ Call Answer ε)

/-- The client's view of a call and the state committed after it. -/
def commit (s : σ) (call : Call) : Except ε Answer × σ :=
  match m.exec call s with
  | .ok (answer, next) => (.ok answer, next)
  | .error e => (.error e, s)

theorem commit_of_ok {s next : σ} {call : Call} {answer : Answer}
    (answered : m.exec call s = .ok (answer, next)) : m.commit s call = (.ok answer, next) := by
  simp only [commit, answered]

theorem commit_of_error {s : σ} {call : Call} {e : ε} (raised : m.exec call s = .error e) :
    m.commit s call = (.error e, s) := by
  simp only [commit, raised]

inductive Run (start : σ) : List (Entry Call Answer ε) → σ → Prop where
  | nil : Run start [] start
  | raise {history : List (Entry Call Answer ε)} {s : σ} {call : Call} {e : ε} :
      Run start history s → m.exec call s = .error e → Run start (⟨call, .error e⟩ :: history) s
  | answer {history : List (Entry Call Answer ε)} {s next : σ} {call : Call} {a : Answer} :
      Run start history s → m.exec call s = .ok (a, next) →
      Run start (⟨call, .ok a⟩ :: history) next

variable {m} {start : σ}

/-- An invariant kept by every answered call holds after every run. -/
theorem Run.invariant {P : σ → Prop} (base : P start)
    (kept : ∀ s call a next, P s → m.exec call s = .ok (a, next) → P next)
    {history : List (Entry Call Answer ε)} {s : σ} (run : m.Run start history s) : P s := by
  induction run with
  | nil => exact base
  | raise _ _ ih => exact ih
  | answer _ answered ih => exact kept _ _ _ _ ih answered

/-- Every entry of a run is a commit, whether it raised or answered. -/
theorem Run.commits {P : List (Entry Call Answer ε) → σ → Prop} (base : P [] start)
    (step : ∀ history s call, m.Run start history s → P history s →
      P (⟨call, (m.commit s call).1⟩ :: history) (m.commit s call).2)
    {history : List (Entry Call Answer ε)} {s : σ} (run : m.Run start history s) : P history s := by
  induction run with
  | nil => exact base
  | @raise _ _ call _ before raised ih =>
    have committed := step _ _ call before ih
    rwa [m.commit_of_error raised] at committed
  | @answer _ _ _ call _ before answered ih =>
    have committed := step _ _ call before ih
    rwa [m.commit_of_ok answered] at committed

/-- What was called and how it ended fixes the state. -/
theorem Run.deterministic {history : List (Entry Call Answer ε)} {s s' : σ}
    (run : m.Run start history s) (other : m.Run start history s') : s = s' := by
  induction run generalizing s' with
  | nil =>
    cases other
    rfl
  | raise _ _ ih =>
    cases other with
    | raise before _ => exact ih before
  | answer _ answered ih =>
    cases other with
    | answer before again =>
      cases ih before
      rw [answered] at again
      cases again
      rfl

/-- A run may be cut anywhere: the older part is a run, and the newer part is one from where
the older part ended. -/
theorem Run.split {newer older : List (Entry Call Answer ε)} {s : σ}
    (run : m.Run start (newer ++ older) s) :
    ∃ middle, m.Run start older middle ∧ m.Run middle newer s := by
  induction newer generalizing s with
  | nil => exact ⟨s, run, .nil⟩
  | cons entry newer ih =>
    cases run with
    | raise before raised =>
      obtain ⟨middle, first, second⟩ := ih before
      exact ⟨middle, first, .raise second raised⟩
    | answer before answered =>
      obtain ⟨middle, first, second⟩ := ih before
      exact ⟨middle, first, .answer second answered⟩

theorem Run.trans {middle s : σ} {newer older : List (Entry Call Answer ε)}
    (first : m.Run start older middle) (second : m.Run middle newer s) :
    m.Run start (newer ++ older) s := by
  induction second with
  | nil => exact first
  | raise _ raised ih => exact .raise ih raised
  | answer _ answered ih => exact .answer ih answered

/-- The run of a list of calls, oldest first. -/
def replay (m : Machine σ Call Answer ε) (start : σ) (calls : List Call) :
    List (Entry Call Answer ε) × σ :=
  calls.foldl (fun (history, s) call =>
    (⟨call, (m.commit s call).1⟩ :: history, (m.commit s call).2)) ([], start)

theorem Run.commit {history : List (Entry Call Answer ε)} {s : σ}
    (run : m.Run start history s) (call : Call) :
    m.Run start (⟨call, (m.commit s call).1⟩ :: history) (m.commit s call).2 := by
  cases result : m.exec call s with
  | error e =>
    rw [m.commit_of_error result]
    exact run.raise result
  | ok pair =>
    rw [m.commit_of_ok result]
    exact run.answer result

theorem run_replay (m : Machine σ Call Answer ε) (start : σ) (calls : List Call) :
    m.Run start (m.replay start calls).1 (m.replay start calls).2 := by
  suffices extend : ∀ (history : List (Entry Call Answer ε)) (s : σ), m.Run start history s →
      m.Run start
        (calls.foldl (fun (history, s) call =>
          (⟨call, (m.commit s call).1⟩ :: history, (m.commit s call).2)) (history, s)).1
        (calls.foldl (fun (history, s) call =>
          (⟨call, (m.commit s call).1⟩ :: history, (m.commit s call).2)) (history, s)).2 from
    extend [] start .nil
  induction calls with
  | nil => exact fun _ _ run => run
  | cons call calls ih => exact fun _ _ run => ih _ _ (run.commit call)

theorem calls_replay (m : Machine σ Call Answer ε) (start : σ) (calls : List Call) :
    (m.replay start calls).1.map Entry.call = calls.reverse := by
  suffices extend : ∀ (history : List (Entry Call Answer ε)) (s : σ),
      (calls.foldl (fun (history, s) call =>
        (⟨call, (m.commit s call).1⟩ :: history, (m.commit s call).2)) (history, s)).1.map
        Entry.call = calls.reverse ++ history.map Entry.call from
    (extend [] start).trans (List.append_nil _)
  induction calls with
  | nil => exact fun _ _ => rfl
  | cons call calls ih =>
    intro history s
    rw [List.foldl_cons, ih, List.map_cons, List.reverse_cons, List.append_assoc,
      List.singleton_append]

end Machine
end Collector.Lib
