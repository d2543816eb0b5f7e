import Mathlib.Tactic.Common

/-!
Coroutines against an outside world. A script asks a question, the world answers, and the script
goes on with the answer; nothing is assumed about the world, so a property of every run is a
property of every sequence of answers. An action is a script with exceptions and with mutable
state that an exception leaves as it is. Safety is proved along the script: what has to hold of
each question, and of the result, given all the exchanges so far.
-/

namespace Collector.Lib

inductive Script (Q : Type) (A : Q → Type) (β : Type) where
  | done (value : β)
  | ask (question : Q) (next : A question → Script Q A β)

namespace Script
variable {Q : Type} {A : Q → Type} {β γ : Type}

def bind : Script Q A β → (β → Script Q A γ) → Script Q A γ
  | .done b, f => f b
  | .ask q next, f => .ask q fun a => (next a).bind f

/-- What is left of a script after some exchanges, the newest first. -/
inductive Run (p : Script Q A β) : List (Sigma A) → Script Q A β → Prop where
  | nil : Run p [] p
  | step {past : List (Sigma A)} {q : Q} {next : A q → Script Q A β} :
      Run p past (.ask q next) → (a : A q) → Run p (⟨q, a⟩ :: past) (next a)

/-- Every question meets `P` and every result meets `R`, whatever the answers. -/
def Safe (P : List (Sigma A) → Q → Prop) (R : List (Sigma A) → β → Prop) :
    Script Q A β → List (Sigma A) → Prop
  | .done b, past => R past b
  | .ask q next, past => P past q ∧ ∀ a, (next a).Safe P R (⟨q, a⟩ :: past)

variable {P : List (Sigma A) → Q → Prop} {R R' : List (Sigma A) → β → Prop}

theorem Safe.bind {T : List (Sigma A) → γ → Prop} {f : β → Script Q A γ} {p : Script Q A β}
    {past : List (Sigma A)} (first : p.Safe P (fun past b => (f b).Safe P T past) past) :
    (p.bind f).Safe P T past := by
  induction p generalizing past with
  | done b => exact first
  | ask q next ih => exact ⟨first.1, fun a => ih a (first.2 a)⟩

theorem Safe.mono {p : Script Q A β} {past : List (Sigma A)} (safe : p.Safe P R past)
    (weaker : ∀ past b, R past b → R' past b) : p.Safe P R' past := by
  induction p generalizing past with
  | done b => exact weaker _ _ safe
  | ask q next ih => exact ⟨safe.1, fun a => ih a (safe.2 a)⟩

theorem Safe.run {p left : Script Q A β} {past : List (Sigma A)} (safe : p.Safe P R [])
    (run : p.Run past left) : left.Safe P R past := by
  induction run with
  | nil => exact safe
  | step _ a ih => exact ih.2 a

/-- Some answers take the script to a question that meets `P` or to a result that meets `R`. -/
def May (P : List (Sigma A) → Q → Prop) (R : List (Sigma A) → β → Prop) :
    Script Q A β → List (Sigma A) → Prop
  | .done b, past => R past b
  | .ask q next, past => P past q ∨ ∃ a, (next a).May P R (⟨q, a⟩ :: past)

theorem May.bind {T : List (Sigma A) → γ → Prop} {f : β → Script Q A γ} {p : Script Q A β}
    {past : List (Sigma A)} (first : p.May P (fun past b => (f b).May P T past) past) :
    (p.bind f).May P T past := by
  induction p generalizing past with
  | done b => exact first
  | ask q next ih =>
    rcases first with here | ⟨a, later⟩
    · exact .inl here
    · exact .inr ⟨a, ih a later⟩

theorem May.mono {p : Script Q A β} {past : List (Sigma A)} (may : p.May P R past)
    (weaker : ∀ past b, R past b → R' past b) : p.May P R' past := by
  induction p generalizing past with
  | done b => exact weaker _ _ may
  | ask q next ih =>
    rcases may with here | ⟨a, later⟩
    · exact .inl here
    · exact .inr ⟨a, ih a later⟩

/-- The run that `May` speaks of. -/
theorem May.run {p left : Script Q A β} {past : List (Sigma A)} (may : left.May P R past)
    (run : p.Run past left) : (∃ past b, p.Run past (.done b) ∧ R past b) ∨
      ∃ past q next, p.Run past (.ask q next) ∧ P past q := by
  induction left generalizing past with
  | done b => exact .inl ⟨past, b, run, may⟩
  | ask q next ih =>
    rcases may with here | ⟨a, later⟩
    · exact .inr ⟨past, q, next, run, here⟩
    · exact ih a later (run.step a)

/-- What the script asks next. -/
def question : Script Q A β → Option Q
  | .done _ => none
  | .ask q _ => some q

theorem eq_ask_of_question {p : Script Q A β} {q : Q} (asks : p.question = some q) :
    ∃ next, p = .ask q next := by
  cases p with
  | done b => cases asks
  | ask q next =>
    cases asks
    exact ⟨next, rfl⟩

/-- The same script where its questions are some of those that can be asked. -/
def embed {Q' : Type} {A' : Q' → Type} (name : Q → Q') (answer : ∀ q, A' (name q) → A q) :
    Script Q A β → Script Q' A' β
  | .done b => .done b
  | .ask q next => .ask (name q) fun a => (next (answer q a)).embed name answer

/-- The result of a script that has ended. -/
def result : Script Q A β → Option β
  | .done b => some b
  | .ask _ _ => none

theorem eq_done_of_result {p : Script Q A β} {b : β} (ended : p.result = some b) : p = .done b := by
  cases p with
  | done c => rw [Option.some.inj ended]
  | ask q next => cases ended

/-- The script against a world that knows its answers in advance. -/
def replay (world : List (Sigma A) → (q : Q) → A q) : Nat → Script Q A β → List (Sigma A) →
    List (Sigma A) × Script Q A β
  | 0, p, past => (past, p)
  | _ + 1, .done b, past => (past, .done b)
  | fuel + 1, .ask q next, past =>
    replay world fuel (next (world past q)) (⟨q, world past q⟩ :: past)

theorem run_replay {world : List (Sigma A) → (q : Q) → A q} {p left : Script Q A β}
    {past : List (Sigma A)} (run : p.Run past left) (fuel : Nat) :
    p.Run (left.replay world fuel past).1 (left.replay world fuel past).2 := by
  induction fuel generalizing left past with
  | zero => exact run
  | succ fuel ih =>
    cases left with
    | done b => exact run
    | ask q next => exact ih (run.step (world past q))

end Script

/-- A script that may raise `E` and that changes `S` on its way. -/
def Act (Q : Type) (A : Q → Type) (S E β : Type) : Type := S → Script Q A (Except E β × S)

namespace Act
variable {Q : Type} {A : Q → Type} {S E β γ : Type}

instance : Monad (Act Q A S E) where
  pure b := fun s => .done (.ok b, s)
  bind p f := fun s => (p s).bind fun
    | (.ok b, s) => f b s
    | (.error e, s) => .done (.error e, s)

def raise (e : E) : Act Q A S E β := fun s => .done (.error e, s)

def ofExcept : Except E β → Act Q A S E β
  | .ok b => pure b
  | .error e => raise e

def get : Act Q A S E S := fun s => .done (.ok s, s)

def modify (change : S → S) : Act Q A S E Unit := fun s => .done (.ok (), change s)

def ask (q : Q) : Act Q A S E (A q) := fun s => .ask q fun a => .done (.ok a, s)

/-- `try`: the exception as a value. -/
def attempt (p : Act Q A S E β) : Act Q A S E (Except E β) :=
  fun s => (p s).bind fun (r, s) => .done (.ok r, s)

/-- What has to hold when an action ends: the exchanges, the outcome and the state. -/
abbrev Post (A : Q → Type) (S E β : Type) := List (Sigma A) → Except E β → S → Prop

def Safe (P : List (Sigma A) → Q → Prop) (R : Post A S E β) (p : Act Q A S E β)
    (past : List (Sigma A)) (s : S) : Prop :=
  (p s).Safe P (fun past r => R past r.1 r.2) past

variable {P : List (Sigma A) → Q → Prop} {R : Post A S E β} {past : List (Sigma A)} {s : S}

theorem Safe.mono {R' : Post A S E β} {p : Act Q A S E β} (safe : p.Safe P R past s)
    (weaker : ∀ past r s, R past r s → R' past r s) : p.Safe P R' past s :=
  Script.Safe.mono safe fun past r => weaker past r.1 r.2

theorem safe_pure {b : β} : (pure b : Act Q A S E β).Safe P R past s ↔ R past (.ok b) s := Iff.rfl

theorem safe_raise {e : E} : (raise e : Act Q A S E β).Safe P R past s ↔ R past (.error e) s := Iff.rfl

theorem safe_get {f : S → Act Q A S E β} : (get >>= f).Safe P R past s ↔ (f s).Safe P R past s := Iff.rfl

theorem safe_modify {change : S → S} {f : Unit → Act Q A S E β} :
    (modify change >>= f).Safe P R past s ↔ (f ()).Safe P R past (change s) := Iff.rfl

theorem safe_ask {q : Q} {f : A q → Act Q A S E β} : (ask q >>= f).Safe P R past s ↔
    P past q ∧ ∀ a, (f a).Safe P R (⟨q, a⟩ :: past) s := Iff.rfl

theorem safe_ofExcept {x : Except E γ} {f : γ → Act Q A S E β}
    (raised : ∀ e, x = .error e → R past (.error e) s)
    (answered : ∀ a, x = .ok a → (f a).Safe P R past s) : (ofExcept x >>= f).Safe P R past s := by
  cases x with
  | error e => exact raised e rfl
  | ok a => exact answered a rfl

/-- The rest of an action after its first part. -/
def andThen (P : List (Sigma A) → Q → Prop) (f : γ → Act Q A S E β) (R : Post A S E β) : Post A S E γ
  | past, .ok b, s => (f b).Safe P R past s
  | past, .error e, s => R past (.error e) s

theorem safe_bind {p : Act Q A S E γ} {f : γ → Act Q A S E β} (first : p.Safe P (andThen P f R) past s) :
    (p >>= f).Safe P R past s := by
  apply Script.Safe.bind
  apply Script.Safe.mono first
  intro past (r, s) said
  cases r with
  | ok b => exact said
  | error e => exact said

/-- The first part ends in `R'`, and the rest is safe from there. -/
theorem Safe.andThen {R' : Post A S E γ} {p : Act Q A S E γ} {f : γ → Act Q A S E β}
    (first : p.Safe P R' past s) (raised : ∀ past e s, R' past (.error e) s → R past (.error e) s)
    (next : ∀ past b s, R' past (.ok b) s → (f b).Safe P R past s) : (p >>= f).Safe P R past s := by
  apply safe_bind
  apply first.mono
  intro past r s said
  cases r with
  | ok b => exact next past b s said
  | error e => exact raised past e s said

theorem safe_map {p : Act Q A S E γ} {g : γ → β}
    (first : p.Safe P (fun past r s => R past (r.map g) s) past s) : (g <$> p).Safe P R past s := by
  exact first.andThen (fun _ _ _ said => said) (fun _ _ _ said => said)

/-- Some answers take the action to such a question or to such an end. -/
def May (P : List (Sigma A) → Q → Prop) (R : Post A S E β) (p : Act Q A S E β)
    (past : List (Sigma A)) (s : S) : Prop :=
  (p s).May P (fun past r => R past r.1 r.2) past

theorem may_get {f : S → Act Q A S E β} : (get >>= f).May P R past s ↔ (f s).May P R past s := Iff.rfl

theorem may_modify {change : S → S} {f : Unit → Act Q A S E β} :
    (modify change >>= f).May P R past s ↔ (f ()).May P R past (change s) := Iff.rfl

theorem may_ask {q : Q} {f : A q → Act Q A S E β} (a : A q)
    (next : (f a).May P R (⟨q, a⟩ :: past) s) : (ask q >>= f).May P R past s := .inr ⟨a, next⟩

/-- The first part may end in `R'`, and the rest may go on from there. -/
theorem May.andThen {R' : Post A S E γ} {p : Act Q A S E γ} {f : γ → Act Q A S E β}
    (first : p.May P R' past s) (raised : ∀ past e s, R' past (.error e) s → R past (.error e) s)
    (next : ∀ past b s, R' past (.ok b) s → (f b).May P R past s) : (p >>= f).May P R past s := by
  apply Script.May.bind
  apply Script.May.mono first
  intro past (r, s) said
  cases r with
  | ok b => exact next past b s said
  | error e => exact raised past e s said

theorem safe_attempt {p : Act Q A S E γ} {f : Except E γ → Act Q A S E β}
    (tried : p.Safe P (fun past r s => (f r).Safe P R past s) past s) :
    (attempt p >>= f).Safe P R past s := by
  apply safe_bind
  apply Script.Safe.bind
  exact Script.Safe.mono tried fun past r said => said

end Act

end Collector.Lib
