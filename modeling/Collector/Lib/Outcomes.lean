import Collector.Lib.ReadCommitted

/-!
What a transaction may commit, whatever the others do in between. Each of its reads may see any
data and each row may be free or not, so a fact about every such outcome is a fact about every
interleaving.
-/

namespace Collector.Lib
variable {σ κ ε α β Call : Type}

namespace Txn

/-- Some data read and some rows skipped take the transaction to this answer. -/
def Gives : Txn σ κ ε α → α → Prop
  | .commit a, answer => a = answer
  | .raise _, _ => False
  | .read next, answer => ∃ s, (next s).Gives answer
  | .lock _ _ next, answer => next.Gives answer
  | .tryLock _ _ next, answer => ∃ got, (next got).Gives answer
  | .write _ next, answer => next.Gives answer

theorem gives_bind {p : Txn σ κ ε α} {f : α → Txn σ κ ε β} {b : β} :
    (p >>= f).Gives b ↔ ∃ a, p.Gives a ∧ (f a).Gives b := by
  change (p.bind f).Gives b ↔ _
  induction p with
  | commit a => simp [Txn.bind, Gives]
  | raise e => simp [Txn.bind, Gives]
  | read next ih =>
    simp only [Txn.bind, Gives, ih]
    exact ⟨fun ⟨s, a, first, rest⟩ => ⟨a, ⟨s, first⟩, rest⟩,
      fun ⟨a, ⟨s, first⟩, rest⟩ => ⟨s, a, first, rest⟩⟩
  | lock mode row next ih => exact ih
  | tryLock mode row next ih =>
    simp only [Txn.bind, Gives, ih]
    exact ⟨fun ⟨got, a, first, rest⟩ => ⟨a, ⟨got, first⟩, rest⟩,
      fun ⟨a, ⟨got, first⟩, rest⟩ => ⟨got, a, first, rest⟩⟩
  | write change next ih => exact ih

/-- On a part of the data it gives what it gives on the part alone. -/
theorem gives_of_zoom {part lockPart : Type} {get : σ → part} {put : part → σ → σ}
    {name : lockPart → κ} {p : Txn part lockPart ε α} {a : α}
    (given : (p.zoom get put name).Gives a) : p.Gives a := by
  induction p with
  | commit b => exact given
  | raise e => exact given
  | read next ih =>
    obtain ⟨s, given⟩ := given
    exact ⟨get s, ih (get s) given⟩
  | lock mode row next ih => exact ih given
  | tryLock mode row next ih =>
    obtain ⟨got, given⟩ := given
    exact ⟨got, ih got given⟩
  | write change next ih => exact ih given

end Txn

namespace System
variable {program : Call → Txn σ κ ε α} {start : σ} {history : List (Ended σ ε α Call)}
  {s next : System σ κ ε α Call}

/-- Whatever the rest of a transaction may give, the whole of it may. -/
def Underway (program : Call → Txn σ κ ε α) (s : System σ κ ε α Call) : Prop :=
  ∀ t session, s.live t = some session → ∀ a, session.program.Gives a → (program session.call).Gives a

theorem Underway.put (underway : Underway program s) {t : Nat} {session : Session σ κ ε α Call}
    (mine : ∀ a, session.program.Gives a → (program session.call).Gives a) :
    Underway program (s.put t session) := by
  intro u other live
  by_cases same : u = t
  · subst same
    simp only [System.put, Function.update_self, Option.some.injEq] at live
    exact live ▸ mine
  · simp only [System.put, Function.update_of_ne same] at live
    exact underway u other live

theorem Underway.drop (underway : Underway program s) (t : Nat) : Underway program (s.drop t) := by
  intro u other live
  by_cases same : u = t
  · subst same
    simp only [System.drop, Function.update_self] at live
    cases live
  · simp only [System.drop, Function.update_of_ne same] at live
    exact underway u other live

theorem Underway.step {ended : Option (Ended σ ε α Call)} (underway : Underway program s)
    (step : Step program s ended next) :
    Underway program next ∧
      ∀ entry ∈ ended, ∀ a, entry.outcome = .ok a → (program entry.call).Gives a := by
  cases step with
  | start call idle => exact ⟨underway.put fun a given => given, nofun⟩
  | read live => exact ⟨underway.put fun a given => underway _ _ live a ⟨_, given⟩, nofun⟩
  | lock live _ => exact ⟨underway.put fun a given => underway _ _ live a given, nofun⟩
  | take live _ => exact ⟨underway.put fun a given => underway _ _ live a ⟨true, given⟩, nofun⟩
  | skip live _ => exact ⟨underway.put fun a given => underway _ _ live a ⟨false, given⟩, nofun⟩
  | write live => exact ⟨underway.put fun a given => underway _ _ live a given, nofun⟩
  | raise live =>
    refine ⟨underway.drop _, fun entry member a committed => ?_⟩
    cases member
    cases committed
  | commit live =>
    refine ⟨underway.drop _, fun entry member a committed => ?_⟩
    cases member
    cases committed
    exact underway _ _ live _ rfl
  | cut live => exact ⟨underway.drop _, nofun⟩

/-- What a transaction committed in a run is something it may give. -/
theorem Run.gives (run : Run program start history s) :
    ∀ entry ∈ history, ∀ a, entry.outcome = .ok a → (program entry.call).Gives a := by
  suffices kept : Underway program s ∧
      ∀ entry ∈ history, ∀ a, entry.outcome = .ok a → (program entry.call).Gives a from kept.2
  induction run with
  | nil =>
    refine ⟨fun t session live => ?_, fun entry member => ?_⟩
    · cases live
    · cases member
  | step _ step ih =>
    obtain ⟨underway, entries⟩ := ih.1.step step
    refine ⟨underway, fun entry member a committed => ?_⟩
    rcases List.mem_append.mp member with new | old
    · exact entries entry (Option.mem_toList.mp new) a committed
    · exact ih.2 entry old a committed

end System
end Collector.Lib
