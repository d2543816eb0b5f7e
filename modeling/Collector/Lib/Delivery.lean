import Mathlib.Algebra.Order.Ring.Int
import Mathlib.Tactic.Common

/-!
At-least-once delivery with a visibility lease. Handing a message out hides it for a while and
uses up one of its deliveries; a message out of deliveries is closed until somebody reopens it.
A slot is the place of one message: before it exists, while it is held, and after it is gone.
-/

namespace Collector.Lib.Delivery

structure Message (Time : Type) where
  visibleAt : Time
  deliveries : Int
  pending : Bool

inductive Slot (Time : Type) where
  | unused
  | held (message : Message Time)
  | gone

/-- What a client sees happen to a message; closing, appearing and going are silent. -/
inductive Act (Time : Type) where
  | hand (now hidden : Time)
  | fail
  | reopen

variable {Time : Type}

def Act.isHand : Act Time → Bool
  | .hand _ _ => true
  | _ => false

def Act.isReopen : Act Time → Bool
  | .reopen => true
  | _ => false

/-- A slot nobody used may be given to something else. -/
inductive Silent : Slot Time → Slot Time → Prop where
  | same (slot : Slot Time) : Silent slot slot
  | taken : Silent .unused .gone
  | appear {message : Message Time} (fresh : message.deliveries = 0) :
      Silent .unused (.held message)
  | close {message : Message Time} : Silent (.held message) (.held { message with pending := false })
  | drop {message : Message Time} : Silent (.held message) .gone

/-- At most `limit` deliveries without a reopening. -/
inductive Step [LT Time] [LE Time] (limit : Int) :
    Slot Time → Option (Act Time) → Slot Time → Prop where
  | silent {slot next : Slot Time} (move : Silent slot next) : Step limit slot none next
  | hand {message : Message Time} {now hidden : Time} (pending : message.pending = true)
      (visible : message.visibleAt ≤ now) (left : message.deliveries < limit) (later : now < hidden) :
      Step limit (.held message) (some (.hand now hidden))
        (.held { message with visibleAt := hidden, deliveries := message.deliveries + 1 })
  | fail {message next : Message Time} (same : next.deliveries = message.deliveries) :
      Step limit (.held message) (some .fail) (.held next)
  | reopen {message next : Message Time} (reset : next.deliveries = 0) :
      Step limit (.held message) (some .reopen) (.held next)

/-- Paths of one slot, newest step first. -/
inductive Path [LT Time] [LE Time] (limit : Int) (start : Slot Time) :
    List (Option (Act Time)) → Slot Time → Prop where
  | nil : Path limit start [] start
  | step {acts : List (Option (Act Time))} {act : Option (Act Time)} {slot next : Slot Time} :
      Path limit start acts slot → Step limit slot act next → Path limit start (act :: acts) next

def hands (acts : List (Option (Act Time))) : Nat := acts.countP fun act => act.any Act.isHand

theorem hands_cons (act : Option (Act Time)) (acts : List (Option (Act Time))) :
    hands (act :: acts) = hands acts + if act.any Act.isHand then 1 else 0 := List.countP_cons

section Budget
variable [LT Time] [LE Time] {limit : Int} {start slot next : Slot Time}

/-- A message within its budget. -/
def Slot.within (limit : Int) (slot : Slot Time) : Prop :=
  ∀ message, slot = .held message → 0 ≤ message.deliveries ∧ message.deliveries ≤ limit

theorem Step.within {act : Option (Act Time)} (step : Step limit slot act next) (room : 0 ≤ limit)
    (held : slot.within limit) : next.within limit := by
  intro message here
  cases step with
  | silent move =>
    cases move with
    | same => exact held message here
    | taken => cases here
    | appear fresh =>
      cases here
      exact ⟨fresh.ge, fresh ▸ room⟩
    | @close message =>
      cases here
      exact held message rfl
    | drop => cases here
  | hand pending visible left later =>
    cases here
    have bounds := held _ rfl
    dsimp only
    omega
  | fail same =>
    cases here
    exact same ▸ held _ rfl
  | reopen reset =>
    cases here
    exact ⟨reset.ge, reset ▸ room⟩

theorem Path.within {acts : List (Option (Act Time))} (path : Path limit start acts slot)
    (room : 0 ≤ limit) (held : start.within limit) : slot.within limit := by
  induction path with
  | nil => exact held
  | step _ step ih => exact step.within room ih

/-- Without a reopening the deliveries made are counted by the message, and a message that is
gone has had no more than its budget. -/
theorem Path.counted {acts : List (Option (Act Time))} (path : Path limit start acts slot)
    (room : 0 ≤ limit) (held : start.within limit)
    (closed : ∀ act ∈ acts, act.all fun act => !act.isReopen) :
    (hands acts : Int) ≤ limit ∧ (slot = .unused → hands acts = 0) ∧
      ∀ message, slot = .held message → (hands acts : Int) ≤ message.deliveries := by
  induction path with
  | nil =>
    refine ⟨by simpa [hands] using room, fun _ => rfl, fun message here => ?_⟩
    simpa [hands] using (held message here).1
  | @step acts act slot next before step ih =>
    obtain ⟨budget, unused, counted⟩ := ih fun act member => closed act (List.mem_cons_of_mem _ member)
    have within := before.within room held
    cases step with
    | silent move =>
      have same : hands (none :: acts) = hands acts := by simp [hands_cons]
      rw [same]
      refine ⟨budget, ?_, ?_⟩
      · rintro rfl
        cases move with
        | same => exact unused rfl
      · rintro message rfl
        cases move with
        | same => exact counted message rfl
        | appear fresh => simp [unused rfl, fresh]
        | @close message => exact counted message rfl
    | @hand message now hidden pending visible left later =>
      have one : hands (some (.hand now hidden) :: acts) = hands acts + 1 := by
        simp [hands_cons, Act.isHand]
      have here := counted message rfl
      rw [one]
      refine ⟨by push_cast; omega, nofun, ?_⟩
      rintro _ ⟨⟩
      push_cast
      omega
    | fail same =>
      have none : hands (some .fail :: acts) = hands acts := by simp [hands_cons, Act.isHand]
      rw [none]
      refine ⟨budget, nofun, ?_⟩
      rintro _ ⟨⟩
      exact same ▸ counted _ rfl
    | reopen =>
      have contra := closed _ (List.mem_cons_self ..)
      simp [Act.isReopen] at contra

end Budget

section Visibility
variable [LinearOrder Time] {limit : Int} {start slot next : Slot Time}

/-- Hidden until an instant, or gone. -/
def Slot.hiddenUntil (instant : Time) (slot : Slot Time) : Prop :=
  slot ≠ .unused ∧ ∀ message, slot = .held message → instant ≤ message.visibleAt

theorem Step.hiddenUntil {act : Option (Act Time)} {instant : Time} (step : Step limit slot act next)
    (hidden : slot.hiddenUntil instant) (plain : act.all Act.isHand = true) :
    next.hiddenUntil instant := by
  obtain ⟨used, after⟩ := hidden
  cases step with
  | silent move =>
    cases move with
    | same => exact ⟨used, after⟩
    | taken | appear => exact absurd rfl used
    | @close message =>
      refine ⟨nofun, ?_⟩
      rintro _ ⟨⟩
      exact after message rfl
    | drop => exact ⟨nofun, nofun⟩
  | hand pending visible left later =>
    refine ⟨nofun, ?_⟩
    rintro _ ⟨⟩
    exact ((after _ rfl).trans visible).trans later.le
  | fail => cases plain
  | reopen => cases plain

theorem Step.hand_hides {now hidden : Time} (step : Step limit slot (some (.hand now hidden)) next) :
    next.hiddenUntil hidden := by
  cases step
  refine ⟨nofun, ?_⟩
  rintro _ ⟨⟩
  exact le_rfl

/-- A message that was handed out is not handed out again before it is visible, unless a failure
was reported or somebody reopened it. -/
theorem Path.hidden {acts : List (Option (Act Time))} {instant now again : Time}
    (path : Path limit start acts slot) (hidden : start.hiddenUntil instant)
    (plain : ∀ act ∈ acts, act.all Act.isHand = true)
    (step : Step limit slot (some (.hand now again)) next) : instant ≤ now := by
  have still : slot.hiddenUntil instant := by
    clear step
    induction path with
    | nil => exact hidden
    | step before step ih =>
      exact step.hiddenUntil (ih fun act member => plain act (List.mem_cons_of_mem _ member))
        (plain _ (List.mem_cons_self ..))
  cases step with
  | hand pending visible left later => exact (still.2 _ rfl).trans visible

end Visibility
end Collector.Lib.Delivery
