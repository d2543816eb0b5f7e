import Mathlib.Data.List.Nodup
import Mathlib.Tactic.Common

/-!
Brackets with names, matched by a stack: a closing bracket takes the innermost open one if that has
its name, and is passed over otherwise. The matching depends on the brackets' order only through
their nesting: brackets put into another order in which every pair still opens before it closes and
no two pairs cross are matched in the same pairs.
-/

namespace Collector.Lib.Nesting

/-- What an item is to the matching. -/
inductive Mark (ν : Type) where
  | opens (name : ν)
  | closes (name : ν)
  | other

/-- The open brackets, innermost first, and the pairs found so far, by their labels. -/
structure State (κ ν : Type) where
  stack : List (κ × ν)
  pairs : List (κ × κ)

variable {κ ν : Type}

def State.next [DecidableEq ν] (state : State κ ν) : Mark ν × κ → State κ ν
  | (.opens name, label) => { state with stack := (label, name) :: state.stack }
  | (.closes name, label) =>
    match state.stack with
    | (opened, own) :: stack =>
      if own = name then ⟨stack, state.pairs ++ [(opened, label)]⟩ else state
    | [] => state
  | (.other, _) => state

def run [DecidableEq ν] (items : List (Mark ν × κ)) : State κ ν := items.foldl State.next ⟨[], []⟩

section Soundness

/-- Open brackets and pairs come from the items, a pair from two of one name. -/
structure Drawn (items : List (Mark ν × κ)) (state : State κ ν) : Prop where
  stack : ∀ entry ∈ state.stack, (.opens entry.2, entry.1) ∈ items
  pairs : ∀ pair ∈ state.pairs, ∃ name, (.opens name, pair.1) ∈ items ∧ (.closes name, pair.2) ∈ items

variable [DecidableEq ν]

theorem Drawn.next {items : List (Mark ν × κ)} {state : State κ ν} (drawn : Drawn items state)
    (item : Mark ν × κ) : Drawn (items ++ [item]) (state.next item) := by
  have wider : Drawn (items ++ [item]) state := by
    constructor
    · exact fun entry member => List.mem_append_left _ (drawn.stack entry member)
    · intro pair member
      obtain ⟨name, opening, closing⟩ := drawn.pairs pair member
      exact ⟨name, List.mem_append_left _ opening, List.mem_append_left _ closing⟩
  obtain ⟨mark, label⟩ := item
  cases mark with
  | other => exact wider
  | opens name =>
    refine ⟨?_, wider.pairs⟩
    intro entry member
    rcases List.mem_cons.mp member with rfl | old
    · exact List.mem_append_right _ (List.mem_singleton_self _)
    · exact wider.stack entry old
  | closes name =>
    rw [State.next]
    split
    · rename_i opened own stack shape
      split
      · rename_i same
        have opening := wider.stack (opened, own) (shape ▸ List.mem_cons_self)
        constructor
        · exact fun entry member => wider.stack entry (shape ▸ List.mem_cons_of_mem _ member)
        · intro pair member
          rcases List.mem_append.mp member with old | new
          · exact wider.pairs pair old
          · rw [List.mem_singleton.mp new]
            exact ⟨name, same ▸ opening, List.mem_append_right _ (List.mem_singleton_self _)⟩
      · exact wider
    · exact wider

theorem drawn_run (items : List (Mark ν × κ)) : Drawn items (run items) := by
  have rest : ∀ (later before : List (Mark ν × κ)) (state : State κ ν), Drawn before state →
      Drawn (before ++ later) (later.foldl State.next state) := by
    intro later
    induction later with
    | nil =>
      intro before state drawn
      rwa [List.append_nil]
    | cons item later ih =>
      intro before state drawn
      have next := ih _ _ (drawn.next item)
      rwa [List.append_assoc, List.singleton_append] at next
  exact rest items [] ⟨[], []⟩ ⟨by simp, by simp⟩

end Soundness

section Labels
variable {κ' : Type} (f : κ → κ')

def State.relabel (state : State κ ν) : State κ' ν :=
  ⟨state.stack.map fun entry => (f entry.1, entry.2), state.pairs.map fun pair => (f pair.1, f pair.2)⟩

variable [DecidableEq ν]

theorem State.relabel_next (state : State κ ν) (mark : Mark ν) (label : κ) :
    (state.next (mark, label)).relabel f = (state.relabel f).next (mark, f label) := by
  obtain ⟨stack, pairs⟩ := state
  cases mark with
  | opens name => rfl
  | other => rfl
  | closes name =>
    cases stack with
    | nil => rfl
    | cons entry stack =>
      obtain ⟨opened, own⟩ := entry
      by_cases same : own = name
      · simp [State.next, State.relabel, same]
      · simp [State.next, State.relabel, same]

/-- The matching does not look at the labels. -/
theorem run_relabel (items : List (Mark ν × κ)) :
    run (items.map fun item => (item.1, f item.2)) = (run items).relabel f := by
  have rest : ∀ (state : State κ ν), (items.map fun item => (item.1, f item.2)).foldl State.next
      (state.relabel f) = (items.foldl State.next state).relabel f := by
    induction items with
    | nil => exact fun _ => rfl
    | cons item items ih =>
      intro state
      rw [List.map_cons, List.foldl_cons, List.foldl_cons, ← State.relabel_next f state, ih]
  exact rest ⟨[], []⟩

end Labels

section Order

/-- All brackets of the items are in the pairs; in their order every pair opens before it closes
and no two pairs cross. -/
structure Nested (items : List (Mark ν × κ)) (pairs : List (κ × κ)) : Prop where
  labels : (items.map Prod.snd).Nodup
  openings : (pairs.map Prod.fst).Nodup
  closings : (pairs.map Prod.snd).Nodup
  named : ∀ pair ∈ pairs, ∃ name, (.opens name, pair.1) ∈ items ∧ (.closes name, pair.2) ∈ items
  opening : ∀ name label, (.opens name, label) ∈ items → ∃ pair ∈ pairs, pair.1 = label
  closing : ∀ name label, (.closes name, label) ∈ items → ∃ pair ∈ pairs, pair.2 = label
  ordered : ∀ pair ∈ pairs, ¬[pair.2, pair.1].Sublist (items.map Prod.snd)
  uncrossed : ∀ a ∈ pairs, ∀ b ∈ pairs, ¬[a.1, b.1, a.2, b.2].Sublist (items.map Prod.snd)

/-- The state behind some of the items: the open brackets are those whose pair is not closed yet,
in their order, and the pairs are the closed ones. -/
structure Reached (pairs : List (κ × κ)) (before : List (Mark ν × κ)) (state : State κ ν) : Prop where
  open_iff : ∀ label name, (label, name) ∈ state.stack ↔
    (.opens name, label) ∈ before ∧ ∀ pair ∈ pairs, pair.1 = label → pair.2 ∉ before.map Prod.snd
  ordered : (state.stack.map Prod.fst).reverse.Sublist (before.map Prod.snd)
  closed_iff : ∀ pair, pair ∈ state.pairs ↔ pair ∈ pairs ∧ pair.2 ∈ before.map Prod.snd
  distinct : state.pairs.Nodup

variable {items before after : List (Mark ν × κ)} {pairs : List (κ × κ)} {state : State κ ν}
  {label : κ} {name : ν}

theorem Nested.mark_unique (nested : Nested items pairs) {first second : Mark ν}
    (one : (first, label) ∈ items) (other : (second, label) ∈ items) : first = second :=
  congrArg Prod.fst (List.inj_on_of_nodup_map nested.labels one other rfl)

theorem Nested.pair_of_opening (nested : Nested items pairs) {a b : κ × κ} (one : a ∈ pairs)
    (other : b ∈ pairs) (same : a.1 = b.1) : a = b :=
  List.inj_on_of_nodup_map nested.openings one other same

theorem Nested.pair_of_closing (nested : Nested items pairs) {a b : κ × κ} (one : a ∈ pairs)
    (other : b ∈ pairs) (same : a.2 = b.2) : a = b :=
  List.inj_on_of_nodup_map nested.closings one other same

theorem Nested.fresh (nested : Nested items pairs) {mark : Mark ν}
    (shape : items = before ++ (mark, label) :: after) :
    (before.map Prod.snd).Nodup ∧ label ∉ before.map Prod.snd := by
  have distinct := nested.labels
  rw [shape, List.map_append, List.map_cons] at distinct
  obtain ⟨early, _, apart⟩ := List.nodup_append.mp distinct
  exact ⟨early, fun member => apart label member label List.mem_cons_self rfl⟩

/-- What closes no pair leaves the closed ones as they are. -/
theorem mem_labels_append {closing : κ} (other : closing ≠ label) (mark : Mark ν) :
    closing ∈ (before ++ [(mark, label)]).map Prod.snd ↔ closing ∈ before.map Prod.snd := by
  simp [other]

theorem Nested.next_other (nested : Nested items pairs) (shape : items = before ++ (.other, label) :: after)
    (reached : Reached pairs before state) : Reached pairs (before ++ [(.other, label)]) state := by
  have here : (Mark.other, label) ∈ items := by
    rw [shape]
    exact List.mem_append_right _ List.mem_cons_self
  have neither : ∀ pair ∈ pairs, pair.2 ≠ label := by
    rintro pair member rfl
    obtain ⟨name, _, closing⟩ := nested.named pair member
    cases nested.mark_unique here closing
  constructor
  · intro label' name'
    rw [reached.open_iff, List.mem_append, List.mem_singleton]
    constructor
    · rintro ⟨opening, still⟩
      refine ⟨.inl opening, fun pair member same closed => still pair member same ?_⟩
      exact (mem_labels_append (neither pair member) _).mp closed
    · rintro ⟨opening, still⟩
      refine ⟨opening.resolve_right (by rintro ⟨⟩), fun pair member same closed => ?_⟩
      exact still pair member same ((mem_labels_append (neither pair member) _).mpr closed)
  · rw [List.map_append]
    exact reached.ordered.trans (List.sublist_append_left _ _)
  · intro pair
    rw [reached.closed_iff]
    constructor
    · exact fun both => ⟨both.1, (mem_labels_append (neither pair both.1) _).mpr both.2⟩
    · exact fun both => ⟨both.1, (mem_labels_append (neither pair both.1) _).mp both.2⟩
  · exact reached.distinct

theorem Nested.next_opens (nested : Nested items pairs)
    (shape : items = before ++ (.opens name, label) :: after) (reached : Reached pairs before state) :
    Reached pairs (before ++ [(.opens name, label)]) { state with stack := (label, name) :: state.stack } := by
  have here : (Mark.opens name, label) ∈ items := by
    rw [shape]
    exact List.mem_append_right _ List.mem_cons_self
  have neither : ∀ pair ∈ pairs, pair.2 ≠ label := by
    rintro pair member rfl
    obtain ⟨name, _, closing⟩ := nested.named pair member
    cases nested.mark_unique here closing
  constructor
  · intro label' name'
    rw [List.mem_cons, reached.open_iff, List.mem_append, List.mem_singleton]
    constructor
    · rintro (new | ⟨opening, still⟩)
      · cases new
        refine ⟨.inr rfl, fun pair member same closed => nested.ordered pair member ?_⟩
        rw [mem_labels_append (neither pair member)] at closed
        rw [shape, List.map_append, List.map_cons, same]
        exact (List.singleton_sublist.mpr closed).append
          (List.singleton_sublist.mpr List.mem_cons_self)
      · refine ⟨.inl opening, fun pair member same closed => still pair member same ?_⟩
        exact (mem_labels_append (neither pair member) _).mp closed
    · rintro ⟨opening | new, still⟩
      · refine .inr ⟨opening, fun pair member same closed => still pair member same ?_⟩
        exact (mem_labels_append (neither pair member) _).mpr closed
      · cases new
        exact .inl rfl
  · rw [List.map_append, List.map_cons, List.reverse_cons]
    exact reached.ordered.append (List.Sublist.refl _)
  · intro pair
    rw [reached.closed_iff]
    constructor
    · exact fun both => ⟨both.1, (mem_labels_append (neither pair both.1) _).mpr both.2⟩
    · exact fun both => ⟨both.1, (mem_labels_append (neither pair both.1) _).mp both.2⟩
  · exact reached.distinct

/-- The bracket that a closing one belongs to is the innermost open one. -/
theorem Nested.innermost (nested : Nested items pairs)
    (shape : items = before ++ (.closes name, label) :: after) (reached : Reached pairs before state)
    {pair : κ × κ} (member : pair ∈ pairs) (closes : pair.2 = label) :
    ∃ stack, state.stack = (pair.1, name) :: stack := by
  have here : (Mark.closes name, label) ∈ items := by
    rw [shape]
    exact List.mem_append_right _ List.mem_cons_self
  obtain ⟨distinct, fresh⟩ := nested.fresh shape
  have opened : (.opens name, pair.1) ∈ before := by
    obtain ⟨own, opening, closing⟩ := nested.named pair member
    rw [closes] at closing
    cases nested.mark_unique here closing
    have somewhere := opening
    rw [shape, List.mem_append, List.mem_cons] at somewhere
    rcases somewhere with early | ⟨⟨⟩⟩ | late
    · exact early
    · exfalso
      apply nested.ordered pair member
      rw [shape, List.map_append, List.map_cons, closes]
      apply List.Sublist.trans _ (List.sublist_append_right _ _)
      have behind : pair.1 ∈ after.map Prod.snd := List.mem_map.mpr ⟨_, late, rfl⟩
      exact (List.singleton_sublist.mpr behind).cons_cons label
  have onStack : (pair.1, name) ∈ state.stack := by
    rw [reached.open_iff]
    refine ⟨opened, fun other known same => ?_⟩
    rw [nested.pair_of_opening known member same, closes]
    exact fresh
  cases shape' : state.stack with
  | nil =>
    rw [shape'] at onStack
    cases onStack
  | cons top stack =>
    obtain ⟨inner, own⟩ := top
    have top_open := (reached.open_iff inner own).mp (shape' ▸ List.mem_cons_self)
    have inItems : (Mark.opens own, inner) ∈ items := by
      rw [shape]
      exact List.mem_append_left _ top_open.1
    rw [shape'] at onStack
    rcases List.mem_cons.mp onStack with same | deeper
    · exact ⟨stack, by rw [same]⟩
    · exfalso
      obtain ⟨other, known, opens⟩ := nested.opening own inner inItems
      have above : [pair.1, inner].Sublist (before.map Prod.snd) := by
        apply List.Sublist.trans _ reached.ordered
        rw [shape', List.map_cons, List.reverse_cons]
        refine List.Sublist.append (List.singleton_sublist.mpr ?_) (List.Sublist.refl _)
        exact List.mem_reverse.mpr (List.mem_map.mpr ⟨_, deeper, rfl⟩)
      have different : other.2 ≠ label := by
        intro same
        cases nested.pair_of_closing known member (same.trans closes.symm)
        rw [opens] at above
        exact (List.nodup_cons.mp (above.nodup distinct)).1 (List.mem_singleton_self _)
      have later : other.2 ∈ after.map Prod.snd := by
        obtain ⟨_, _, closing⟩ := nested.named other known
        have somewhere : other.2 ∈ items.map Prod.snd := List.mem_map.mpr ⟨_, closing, rfl⟩
        rw [shape, List.map_append, List.map_cons, List.mem_append, List.mem_cons] at somewhere
        exact (somewhere.resolve_left (top_open.2 other known opens)).resolve_left different
      apply nested.uncrossed pair member other known
      rw [shape, List.map_append, List.map_cons, opens, closes]
      exact above.append ((List.singleton_sublist.mpr later).cons_cons label)

/-- A closing bracket takes its own opening one off the stack. -/
theorem Nested.next_closes (nested : Nested items pairs)
    (shape : items = before ++ (.closes name, label) :: after) (reached : Reached pairs before state)
    {pair : κ × κ} (member : pair ∈ pairs) (closes : pair.2 = label) {stack : List (κ × ν)}
    (top : state.stack = (pair.1, name) :: stack) :
    Reached pairs (before ++ [(.closes name, label)]) ⟨stack, state.pairs ++ [(pair.1, label)]⟩ := by
  obtain ⟨distinct, fresh⟩ := nested.fresh shape
  have own : (pair.1, label) = pair := by rw [← closes]
  have stacked := reached.ordered.nodup distinct
  rw [List.nodup_reverse, top, List.map_cons, List.nodup_cons] at stacked
  constructor
  · intro label' name'
    have remains : (label', name') ∈ stack ↔ (label', name') ∈ state.stack ∧ label' ≠ pair.1 := by
      rw [top, List.mem_cons]
      constructor
      · intro deeper
        refine ⟨.inr deeper, ?_⟩
        rintro rfl
        exact stacked.1 (List.mem_map.mpr ⟨_, deeper, rfl⟩)
      · rintro ⟨same | deeper, different⟩
        · cases same
          exact absurd rfl different
        · exact deeper
    rw [remains, reached.open_iff, List.mem_append, List.mem_singleton]
    constructor
    · rintro ⟨⟨opening, still⟩, different⟩
      refine ⟨.inl opening, fun other known same closed => ?_⟩
      have later : other.2 ≠ label := by
        intro both
        rw [nested.pair_of_closing known member (both.trans closes.symm)] at same
        exact different same.symm
      exact still other known same ((mem_labels_append later _).mp closed)
    · rintro ⟨opening | new, still⟩
      · refine ⟨⟨opening, fun other known same closed => still other known same ?_⟩, ?_⟩
        · rw [List.map_append]
          exact List.mem_append_left _ closed
        · intro same
          apply still pair member same.symm
          rw [closes, List.map_append]
          exact List.mem_append_right _ (List.mem_singleton_self _)
      · cases new
  · rw [List.map_append]
    apply List.Sublist.trans _ (reached.ordered.trans (List.sublist_append_left _ _))
    rw [top, List.map_cons, List.reverse_cons]
    exact List.sublist_append_left _ _
  · intro other
    rw [own, List.mem_append, List.mem_singleton, reached.closed_iff, List.map_append, List.mem_append]
    constructor
    · rintro (⟨known, closed⟩ | rfl)
      · exact ⟨known, .inl closed⟩
      · exact ⟨member, .inr (by rw [closes]; exact List.mem_singleton_self _)⟩
    · rintro ⟨known, closed | now⟩
      · exact .inl ⟨known, closed⟩
      · exact .inr (nested.pair_of_closing known member ((List.mem_singleton.mp now).trans closes.symm))
  · rw [own, List.nodup_append]
    refine ⟨reached.distinct, List.nodup_singleton _, ?_⟩
    rintro other known _ (new) rfl
    rw [List.mem_singleton.mp new, reached.closed_iff, closes] at known
    exact fresh known.2

variable [DecidableEq ν]

theorem Nested.next (nested : Nested items pairs) {item : Mark ν × κ}
    (shape : items = before ++ item :: after) (reached : Reached pairs before state) :
    Reached pairs (before ++ [item]) (state.next item) := by
  obtain ⟨mark, label⟩ := item
  cases mark with
  | other => exact nested.next_other shape reached
  | opens name => exact nested.next_opens shape reached
  | closes name =>
    have here : (Mark.closes name, label) ∈ items := by
      rw [shape]
      exact List.mem_append_right _ List.mem_cons_self
    obtain ⟨pair, member, closes⟩ := nested.closing name label here
    obtain ⟨stack, top⟩ := nested.innermost shape reached member closes
    have next := nested.next_closes shape reached member closes top
    rw [State.next, top]
    dsimp only
    rwa [if_pos rfl]

/-- Items nested by some pairs are matched in these pairs. -/
theorem Nested.perm_run (nested : Nested items pairs) : (run items).pairs.Perm pairs := by
  have rest : ∀ (after before : List (Mark ν × κ)) (state : State κ ν), items = before ++ after →
      Reached pairs before state → Reached pairs items (after.foldl State.next state) := by
    intro after
    induction after with
    | nil =>
      intro before state shape reached
      rw [shape, List.append_nil]
      exact reached
    | cons item after ih =>
      intro before state shape reached
      apply ih (before ++ [item]) _ _ (nested.next shape reached)
      rw [shape, List.append_assoc, List.singleton_append]
  have start : Reached pairs [] (⟨[], []⟩ : State κ ν) := ⟨by simp, List.Sublist.refl _, by simp, .nil⟩
  have last : Reached pairs items (run items) := rest items [] ⟨[], []⟩ rfl start
  have distinct : pairs.Nodup := List.Nodup.of_map _ nested.openings
  rw [List.perm_ext_iff_of_nodup last.distinct distinct]
  intro pair
  rw [last.closed_iff, and_iff_left_of_imp]
  intro member
  obtain ⟨_, _, closing⟩ := nested.named pair member
  exact List.mem_map.mpr ⟨_, closing, rfl⟩

end Order

end Collector.Lib.Nesting
