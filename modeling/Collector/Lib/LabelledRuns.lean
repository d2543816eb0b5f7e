import Mathlib.Data.List.Basic
import Mathlib.Tactic.Common

/-!
Runs of a labelled system, and how often an event can happen while some condition lasts: each state has a
credit, and as long as the condition lasts, a step that makes the event pays for it and no step gains.

Procedures that send single commands to shared data are such systems. Between two commands others may change
the data, and a procedure may be given up at any of them: what is done by then stays done. A procedure is
safe if an invariant holds after each command whatever the others do in between, and if its result is right
when it ends.
-/

namespace Collector.Lib

section Labelled
variable {σ ε : Type} {step : σ → Option ε → σ → Prop} {P : σ → Prop}

/-- A run whose states all have a property, with its events in order. -/
inductive RunIn (step : σ → Option ε → σ → Prop) (P : σ → Prop) : σ → List ε → σ → Prop where
  | nil {s : σ} (here : P s) : RunIn step P s [] s
  | cons {s next final : σ} {event : Option ε} {events : List ε} (here : P s)
    (first : step s event next) (rest : RunIn step P next events final) :
    RunIn step P s (event.toList ++ events) final

namespace RunIn
variable {s final : σ} {events : List ε}

theorem head (run : RunIn step P s events final) : P s := by
  cases run with
  | nil here => exact here
  | cons here _ _ => exact here

/-- What every step keeps, given its events, holds at the end of a run. -/
theorem invariant (Inv : σ → Prop) (allowed : ε → Prop)
    (kept : ∀ s event next, Inv s → step s event next → (∀ e ∈ event, allowed e) → Inv next)
    (run : RunIn step P s events final) (start : Inv s) (clean : ∀ e ∈ events, allowed e) : Inv final := by
  induction run with
  | nil _ => exact start
  | @cons s next final event events _ first _ ih =>
    apply ih
    · apply kept _ _ _ start first
      intro e member
      exact clean e (List.mem_append_left _ (Option.mem_toList.mpr member))
    · exact fun e member => clean e (List.mem_append_right _ member)

theorem strengthen (Inv : σ → Prop) (kept : ∀ s event next, Inv s → step s event next → Inv next)
    (run : RunIn step P s events final) (start : Inv s) :
    RunIn step (fun t => P t ∧ Inv t) s events final := by
  induction run with
  | nil here => exact .nil ⟨here, start⟩
  | cons here first _ ih => exact .cons ⟨here, start⟩ first (ih (kept _ _ _ start first))

theorem weaken {Q : σ → Prop} (implies : ∀ t, P t → Q t) (run : RunIn step P s events final) :
    RunIn step Q s events final := by
  induction run with
  | nil here => exact .nil (implies _ here)
  | cons here first _ ih => exact .cons (implies _ here) first ih

/-- The number of counted events is within the credit of the first state. -/
theorem count_le_credit (Inv : σ → Prop) (counted : ε → Bool) (credit : σ → Nat)
    (kept : ∀ s event next, Inv s → step s event next → Inv next)
    (pays : ∀ s event next, Inv s → P s → P next → step s event next →
      event.toList.countP counted + credit next ≤ credit s)
    (run : RunIn step P s events final) (start : Inv s) : events.countP counted ≤ credit s := by
  induction run with
  | nil _ => exact Nat.zero_le _
  | @cons s next final event events here first rest ih =>
    have paid := pays s event next start here rest.head first
    have later := ih (kept s event next start first)
    rw [List.countP_append]
    omega

end RunIn
end Labelled

variable {σ τ ε α β Call : Type}

inductive Procedure (σ ε α : Type) where
  | done (answer : α)
  | fail (error : ε)
  | command (change : σ → σ) (next : σ → Procedure σ ε α)

namespace Procedure

def bind : Procedure σ ε α → (α → Procedure σ ε β) → Procedure σ ε β
  | .done a, f => f a
  | .fail e, _ => .fail e
  | .command change next, f => .command change fun s => (next s).bind f

instance : Monad (Procedure σ ε) where
  pure := .done
  bind := .bind

/-- A command that only reads. -/
def ask (look : σ → α) : Procedure σ ε α := .command id fun s => .done (look s)

/-- A command that may be refused, and then changes nothing. -/
def tell (act : σ → Except ε σ) : Procedure σ ε Unit :=
  .command (fun s => (act s).toOption.getD s) fun s =>
    match act s with
    | .ok _ => .done ()
    | .error e => .fail e

/-- A `for` loop. -/
def each (f : β → Procedure σ ε Unit) : List β → Procedure σ ε Unit
  | [] => .done ()
  | x :: xs => do
    f x
    each f xs

/-- The procedure when nobody else is there. -/
def exec : Procedure σ ε α → σ → Except ε α × σ
  | .done a, s => (.ok a, s)
  | .fail e, s => (.error e, s)
  | .command change next, s => (next s).exec (change s)

/-- A procedure on a part of the data. -/
def on (get : σ → τ) (put : τ → σ → σ) : Procedure τ ε α → Procedure σ ε α
  | .done a => .done a
  | .fail e => .fail e
  | .command change next => .command (fun s => put (change (get s)) s) fun s => (next (get s)).on get put

/-- The invariant holds after each command, and the result is right in the end. -/
def Safe (outside : σ → σ → Prop) (Inv : σ → Prop) (Q : Except ε α → σ → Prop) :
    Procedure σ ε α → σ → Prop
  | .done a, s => Q (.ok a) s
  | .fail e, s => Q (.error e) s
  | .command change next, s => ∀ now, outside s now → Inv now →
      Inv (change now) ∧ (next now).Safe outside Inv Q (change now)

variable {outside : σ → σ → Prop} {Inv : σ → Prop} {Q : Except ε α → σ → Prop} {s : σ}

theorem exec_bind {p : Procedure σ ε α} {f : α → Procedure σ ε β} : (p >>= f).exec s =
    match p.exec s with
    | (.ok a, after) => (f a).exec after
    | (.error e, after) => (.error e, after) := by
  change (p.bind f).exec s = _
  induction p generalizing s with
  | done a => rfl
  | fail e => rfl
  | command change next ih => exact ih s

/-- The result of the first part of a procedure that goes on with `f`. -/
def andThen (outside : σ → σ → Prop) (Inv : σ → Prop) (f : α → Procedure σ ε β)
    (Q : Except ε β → σ → Prop) : Except ε α → σ → Prop
  | .ok a, s => (f a).Safe outside Inv Q s
  | .error e, s => Q (.error e) s

theorem safe_bind {Q : Except ε β → σ → Prop} {p : Procedure σ ε α} {f : α → Procedure σ ε β}
    (first : p.Safe outside Inv (andThen outside Inv f Q) s) : (p >>= f).Safe outside Inv Q s := by
  change (p.bind f).Safe outside Inv Q s
  induction p generalizing s with
  | done a => exact first
  | fail e => exact first
  | command change next ih =>
    intro now moved kept
    exact ⟨(first now moved kept).1, ih _ (first now moved kept).2⟩

theorem Safe.mono {Q' : Except ε α → σ → Prop} (weaker : ∀ r s, Q r s → Q' r s) {p : Procedure σ ε α}
    (safe : p.Safe outside Inv Q s) : p.Safe outside Inv Q' s := by
  induction p generalizing s with
  | done a => exact weaker _ _ safe
  | fail e => exact weaker _ _ safe
  | command change next ih =>
    intro now moved kept
    exact ⟨(safe now moved kept).1, ih _ (safe now moved kept).2⟩

theorem safe_ask {Q : Except ε β → σ → Prop} {look : σ → α} {f : α → Procedure σ ε β}
    (rest : ∀ now, outside s now → Inv now → (f (look now)).Safe outside Inv Q now) :
    (ask look >>= f).Safe outside Inv Q s := fun now moved kept => ⟨kept, rest now moved kept⟩

theorem safe_tell {Q : Except ε Unit → σ → Prop} {act : σ → Except ε σ}
    (refused : ∀ now e, outside s now → Inv now → act now = .error e → Q (.error e) now)
    (accepted : ∀ now after, outside s now → Inv now → act now = .ok after →
      Inv after ∧ Q (.ok ()) after) : (tell act).Safe outside Inv Q s := by
  intro now moved kept
  dsimp only
  cases acted : act now with
  | ok after => exact accepted now after moved kept acted
  | error e => exact ⟨kept, refused now e moved kept acted⟩

/-- What is safe on a part of the data is safe on all of it, if the rest is left alone. -/
theorem Safe.on (get : σ → τ) (put : τ → σ → σ) (Frame : σ → Prop) {partly : τ → τ → Prop}
    {Part : τ → Prop} {R : Except ε α → τ → Prop} (get_put : ∀ x s, get (put x s) = x)
    (seen : ∀ s now, outside s now → partly (get s) (get now))
    (framed : ∀ s now, outside s now → Frame s → Frame now) (kept : ∀ x s, Frame s → Frame (put x s))
    (whole : ∀ s, Frame s → Part (get s) → Inv s)
    (stable : ∀ x now, partly x now → Part x → Part now)
    {p : Procedure τ ε α} (safe : p.Safe partly Part R (get s)) (frame : Frame s) (holds : Part (get s)) :
    (p.on get put).Safe outside Inv (fun r s => R r (get s) ∧ Frame s ∧ Part (get s)) s := by
  induction p generalizing s with
  | done a => exact ⟨safe, frame, holds⟩
  | fail e => exact ⟨safe, frame, holds⟩
  | command change next ih =>
    intro now moved _
    have here := stable _ _ (seen s now moved) holds
    have later := safe (get now) (seen s now moved) here
    have put_frame := kept (change (get now)) now (framed s now moved frame)
    have put_part : Part (get (put (change (get now)) now)) := by
      rw [get_put]
      exact later.1
    refine ⟨whole _ put_frame put_part, ih _ ?_ put_frame put_part⟩
    rw [get_put]
    exact later.2

theorem Safe.holds {p : Procedure σ ε α} (safe : p.Safe outside Inv Q s) (here : Inv s) :
    p.Safe outside Inv (fun r s => Q r s ∧ Inv s) s := by
  induction p generalizing s with
  | done a => exact ⟨safe, here⟩
  | fail e => exact ⟨safe, here⟩
  | command change next ih =>
    intro now moved kept
    have step := safe now moved kept
    exact ⟨step.1, ih _ step.2 step.1⟩

theorem safe_each_from {f : β → Procedure σ ε Unit} {Done : β → σ → Prop} {xs seen : List β} {every : List β}
    (round : ∀ x ∈ every, ∀ seen s, Inv s → (∀ y ∈ seen, Done y s) →
      (f x).Safe outside Inv (fun r s => r = .ok () → ∀ y ∈ x :: seen, Done y s) s)
    (inside : ∀ x ∈ xs, x ∈ every) (here : Inv s) (before : ∀ y ∈ seen, Done y s) :
    (each f xs).Safe outside Inv (fun r s => r = .ok () → ∀ y, y ∈ seen ∨ y ∈ xs → Done y s) s := by
  induction xs generalizing seen s with
  | nil =>
    intro _ y member
    exact before y (by simpa using member)
  | cons x xs ih =>
    rw [List.forall_mem_cons] at inside
    apply safe_bind
    apply ((round x inside.1 seen s here before).holds here).mono
    rintro (e | ⟨⟩) later ⟨finished, kept⟩
    · rintro ⟨⟩
    · apply (ih inside.2 kept (finished rfl)).mono
      rintro r last ends returned y member
      apply ends returned y
      simpa [or_assoc, or_comm, or_left_comm] using member

/-- A loop whose rounds each do their part and undo nothing. -/
theorem safe_each {f : β → Procedure σ ε Unit} {Done : β → σ → Prop} {xs : List β}
    (round : ∀ x ∈ xs, ∀ seen s, Inv s → (∀ y ∈ seen, Done y s) →
      (f x).Safe outside Inv (fun r s => r = .ok () → ∀ y ∈ x :: seen, Done y s) s) (here : Inv s) :
    (each f xs).Safe outside Inv (fun r s => r = .ok () → ∀ x ∈ xs, Done x s) s := by
  have whole := @safe_each_from _ _ _ _ _ _ f Done xs [] xs round (fun _ member => member) here
    fun _ member => absurd member List.not_mem_nil
  exact whole.mono fun r s done returned x member => done returned x (.inr member)

/-- The others may move the data before the procedure goes on. -/
theorem Safe.moved (trans : ∀ a b c, outside a b → outside b c → outside a c)
    (steady : ∀ r s now, outside s now → Q r s → Q r now) {p : Procedure σ ε α} {now : σ}
    (safe : p.Safe outside Inv Q s) (moved : outside s now) : p.Safe outside Inv Q now := by
  cases p with
  | done a => exact steady _ _ _ moved safe
  | fail e => exact steady _ _ _ moved safe
  | command change next => exact fun later again kept => safe later (trans _ _ _ moved again) kept

end Procedure

/-- The data, and what is being worked on. -/
structure Site (σ ε α Call : Type) where
  data : σ
  current : Option (Call × Procedure σ ε α)

namespace Site

/-- One call is worked on at a time, and any of them may be given up. -/
inductive Step (start : Call → Procedure σ ε α) (outside : σ → σ → Prop) :
    Site σ ε α Call → Option (Call × Except ε α) → Site σ ε α Call → Prop where
  | begins {s : σ} (call : Call) : Step start outside ⟨s, none⟩ none ⟨s, some (call, start call)⟩
  | commands {s : σ} {call : Call} {change : σ → σ} {next : σ → Procedure σ ε α} :
    Step start outside ⟨s, some (call, .command change next)⟩ none ⟨change s, some (call, next s)⟩
  | returns {s : σ} {call : Call} {a : α} :
    Step start outside ⟨s, some (call, .done a)⟩ (some (call, .ok a)) ⟨s, none⟩
  | fails {s : σ} {call : Call} {e : ε} :
    Step start outside ⟨s, some (call, .fail e)⟩ (some (call, .error e)) ⟨s, none⟩
  | abandoned {s : σ} {call : Call} {p : Procedure σ ε α} :
    Step start outside ⟨s, some (call, p)⟩ none ⟨s, none⟩
  | others {s now : σ} {current : Option (Call × Procedure σ ε α)} (moved : outside s now) :
    Step start outside ⟨s, current⟩ none ⟨now, current⟩

/-- What a call does when nobody else is there is one of the runs. -/
theorem run_alone {start : Call → Procedure σ ε α} {outside : σ → σ → Prop} (call : Call)
    (p : Procedure σ ε α) (s : σ) : RunIn (Step start outside) (fun _ => True) ⟨s, some (call, p)⟩
      [(call, (p.exec s).1)] ⟨(p.exec s).2, none⟩ := by
  induction p generalizing s with
  | done a =>
    have step : Step start outside ⟨s, some (call, .done a)⟩ (some (call, .ok a)) ⟨s, none⟩ := .returns
    exact .cons trivial step (.nil trivial)
  | fail e =>
    have step : Step start outside ⟨s, some (call, .fail e)⟩ (some (call, .error e)) ⟨s, none⟩ := .fails
    exact .cons trivial step (.nil trivial)
  | command change next ih =>
    have step : Step start outside ⟨s, some (call, .command change next)⟩ none
        ⟨change s, some (call, next s)⟩ := .commands
    exact .cons trivial step (ih s (change s))

/-- The invariant holds, and what is under way is safe from here. -/
structure Sound (outside : σ → σ → Prop) (Inv : σ → Prop) (Q : Call → Except ε α → σ → Prop)
    (site : Site σ ε α Call) : Prop where
  holds : Inv site.data
  safe : ∀ call p, site.current = some (call, p) → p.Safe outside Inv (Q call) site.data

variable {start : Call → Procedure σ ε α} {outside : σ → σ → Prop} {Inv : σ → Prop}
  {Q : Call → Except ε α → σ → Prop} {site next : Site σ ε α Call} {event : Option (Call × Except ε α)}

theorem Sound.step (trans : ∀ a b c, outside a b → outside b c → outside a c)
    (refl : ∀ s, outside s s) (stable : ∀ s now, outside s now → Inv s → Inv now)
    (steady : ∀ call r s now, outside s now → Q call r s → Q call r now)
    (begins : ∀ call s, Inv s → (start call).Safe outside Inv (Q call) s)
    (sound : site.Sound outside Inv Q) (step : Step start outside site event next) :
    next.Sound outside Inv Q := by
  cases step with
  | begins call =>
    refine ⟨sound.holds, ?_⟩
    rintro _ _ ⟨⟩
    exact begins call _ sound.holds
  | commands =>
    have first := sound.safe _ _ rfl _ (refl _) sound.holds
    refine ⟨first.1, ?_⟩
    rintro _ _ ⟨⟩
    exact first.2
  | returns | fails | abandoned => exact ⟨sound.holds, by rintro _ _ ⟨⟩⟩
  | others moved =>
    exact ⟨stable _ _ moved sound.holds,
      fun call p here => (sound.safe call p here).moved trans (steady call) moved⟩

/-- A result that is about to be returned is right, and so is the data at any moment. -/
theorem sound_of_run (trans : ∀ a b c, outside a b → outside b c → outside a c)
    (refl : ∀ s, outside s s) (stable : ∀ s now, outside s now → Inv s → Inv now)
    (steady : ∀ call r s now, outside s now → Q call r s → Q call r now)
    (begins : ∀ call s, Inv s → (start call).Safe outside Inv (Q call) s)
    {s : σ} {P : Site σ ε α Call → Prop} {events : List (Call × Except ε α)}
    (run : RunIn (Step start outside) P ⟨s, none⟩ events site) (holds : Inv s) :
    site.Sound outside Inv Q := by
  refine run.invariant (Site.Sound outside Inv Q) (fun _ => True) ?_ ?_ fun _ _ => trivial
  · exact fun _ _ _ sound step _ => sound.step trans refl stable steady begins step
  · exact ⟨holds, by rintro _ _ ⟨⟩⟩

end Site
end Collector.Lib
