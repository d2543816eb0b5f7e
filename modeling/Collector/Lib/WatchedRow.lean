import Collector.Lib.RelyGuarantee

/-!
Transactions seen from one row. `view` is a part of the data that is written only under a lock of
the row which keeps every other writer out: a transaction that holds the row can count on the view,
and every commit takes the view it finds to the view it leaves in one move. A run is then a run of
moves, in the order in which the transactions ended.
-/

namespace Collector.Lib
variable {σ κ ε α β Call V : Type}

/-- A lock that keeps every writer of the row out. -/
def Guarded (row : κ) (held : List (κ × LockMode)) : Prop :=
  ∃ mode, (row, mode) ∈ held ∧ mode.conflicts .noKeyUpdate = true

theorem Guarded.not_apart {row : κ} {held other : List (κ × LockMode)} {mode : LockMode}
    (guarded : Guarded row other) (mine : (row, mode) ∈ held)
    (writes : mode = .noKeyUpdate ∨ mode = .update) : ¬Apart held other := by
  obtain ⟨theirs, member, conflict⟩ := guarded
  exact not_apart_of_writer mine member writes conflict

theorem Guarded.of_writer {row : κ} {held : List (κ × LockMode)} {mode : LockMode}
    (member : (row, mode) ∈ held) (writes : mode = .noKeyUpdate ∨ mode = .update) :
    Guarded row held := by
  refine ⟨mode, member, ?_⟩
  rcases writes with rfl | rfl <;> rfl

/-- What a transaction can count on about a view of which `P` always holds. -/
def watching (view : σ → V) (row : κ) (P : V → Prop) : Discipline σ κ where
  inv c := P (view c)
  rely held a b := Guarded row held → view b = view a
  refl _ _ _ := rfl
  mono := by
    intro held more a b sub moved ⟨mode, member, conflict⟩
    exact moved ⟨mode, sub member, conflict⟩
  trans := by
    intro held a b c first second guarded
    rw [second guarded, first guarded]

section
variable {view : σ → V} {row : κ} {P : V → Prop}
  {move : Call → Except ε α → V → V → Prop} {call : Call}

/-- No call takes the view out of `P`. -/
def MoveKeeps (P : V → Prop) (move : Call → Except ε α → V → V → Prop) : Prop :=
  ∀ call outcome before after, P before → move call outcome before after → P after

/-- A call that ended is explained by the view before and after it. -/
def Moved (view : σ → V) (P : V → Prop) (move : Call → Except ε α → V → V → Prop) (call : Call)
    (outcome : Except ε α) (before after : σ) : Prop :=
  P (view before) ∧ move call outcome (view before) (view after)

/-- A commit that leaves the view alone or holds the row for writing. -/
theorem ends_of_move (closed : MoveKeeps P move) {a : α} {held : List (κ × LockMode)}
    {pending : σ → σ} {c : σ} (valid : P (view c))
    (owned : view (pending c) = view c ∨
      ∃ mode, (row, mode) ∈ held ∧ (mode = .noKeyUpdate ∨ mode = .update))
    (step : move call (.ok a) (view c) (view (pending c))) :
    (watching view row P).Ends (Moved view P move call) (.ok a) held pending c := by
  refine ⟨closed _ _ _ _ valid step, ?_, valid, step⟩
  intro other apart guarded
  rcases owned with same | ⟨mode, member, writes⟩
  · exact same
  · exact absurd apart (guarded.not_apart member writes)

theorem watching_about (a b : σ) (same : view b = view a) (valid : (watching view row P).inv a) :
    (watching view row P).inv b ∧ ∀ held, (watching view row P).rely held a b := by
  refine ⟨?_, fun _ _ => same⟩
  show P (view b)
  rw [same]
  exact valid

/-- A run of verified transactions is a run of moves of the view. -/
theorem watched_serial {program : Call → Txn σ κ ε α}
    (all : (watching view row P).Verified program (Moved view P move)) {start : σ}
    (valid : P (view start)) {Q : List (Ended σ ε α Call) → V → Prop} (base : Q [] (view start))
    (kept : ∀ history entry, Q history (view entry.before) → P (view entry.before) →
      P (view entry.after) → move entry.call entry.outcome (view entry.before) (view entry.after) →
      Q (entry :: history) (view entry.after))
    {history : List (Ended σ ε α Call)} {s : System σ κ ε α Call}
    (run : System.Run program start history s) : Q history (view s.committed) := by
  apply all.serial valid (P := fun history c => Q history (view c)) base _ run
  intro history entry before inv after _ ⟨_, step⟩
  exact kept history entry before inv after step

end
end Collector.Lib
