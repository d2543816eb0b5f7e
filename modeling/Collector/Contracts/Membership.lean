import Collector.Contracts.Resolution

/-!
Groups and membership. The two dictionaries of the replay say the same, so no lookup fails; what a
loop over entities that leave their groups does to them depends on the set of the entities only.
-/

namespace Collector.Contracts
open Collector.Lib

/-- The two dictionaries say the same, and no group is empty. -/
structure Consistent (state : ReplayState) : Prop where
  held : ∀ e g, state.membership.lookup e = some g → ∃ s, state.groups.lookup g = some s ∧ e ∈ s
  member : ∀ g s, state.groups.lookup g = some s → ∀ e ∈ s, state.membership.lookup e = some g
  nonempty : ∀ g s, state.groups.lookup g = some s → s ≠ ∅

theorem consistent_start : Consistent .start where
  held := by simp [ReplayState.start]
  member := by simp [ReplayState.start]
  nonempty := by simp [ReplayState.start]

/-- A group without those that are gone; an emptied group is deleted. -/
def remaining (held : Option (Finset Uuid)) (gone : Finset Uuid) : Option (Finset Uuid) :=
  held.bind fun s => if s \ gone = ∅ then none else some (s \ gone)

theorem remaining_empty {held : Option (Finset Uuid)} (nonempty : ∀ s, held = some s → s ≠ ∅) :
    remaining held ∅ = held := by
  cases held with
  | none => rfl
  | some s => simp [remaining, nonempty s rfl]

theorem remaining_insert_of_notMem {held : Option (Finset Uuid)} {gone : Finset Uuid} {e : Uuid}
    (outside : ∀ s, held = some s → e ∉ s) : remaining held (insert e gone) = remaining held gone := by
  cases held with
  | none => rfl
  | some s => rw [remaining, remaining, Option.bind_some, Option.bind_some,
      Finset.sdiff_insert_of_notMem (outside s rfl)]

theorem remaining_eq_some {held : Option (Finset Uuid)} {gone s : Finset Uuid} :
    remaining held gone = some s ↔ ∃ t, held = some t ∧ t \ gone = s ∧ s ≠ ∅ := by
  cases held with
  | none => simp [remaining]
  | some t =>
    rw [remaining, Option.bind_some]
    constructor
    · intro kept
      split at kept
      · cases kept
      · rename_i some
        cases kept
        exact ⟨t, rfl, rfl, some⟩
    · rintro ⟨t, same, rfl, some⟩
      cases same
      rw [if_neg some]

section Remaining
variable {state : ReplayState} {gone : Finset Uuid} {e g : Uuid}

/-- Whoever is not gone is still in the group. -/
theorem Consistent.held_remaining (consistent : Consistent state)
    (registered : state.membership.lookup e = some g) (stays : e ∉ gone) :
    ∃ s, remaining (state.groups.lookup g) gone = some s ∧ e ∈ s := by
  obtain ⟨s, held, within⟩ := consistent.held e g registered
  have inside : e ∈ s \ gone := Finset.mem_sdiff.mpr ⟨within, stays⟩
  exact ⟨s \ gone, remaining_eq_some.mpr ⟨s, held, rfl, Finset.ne_empty_of_mem inside⟩, inside⟩

theorem Consistent.member_remaining (consistent : Consistent state) {s : Finset Uuid}
    (found : remaining (state.groups.lookup g) gone = some s) (within : e ∈ s) :
    e ∉ gone ∧ state.membership.lookup e = some g := by
  obtain ⟨t, held, rfl, _⟩ := remaining_eq_some.mp found
  obtain ⟨inside, stays⟩ := Finset.mem_sdiff.mp within
  exact ⟨stays, consistent.member g t held e inside⟩

theorem nonempty_of_remaining {held : Option (Finset Uuid)} {s : Finset Uuid}
    (found : remaining held gone = some s) : s ≠ ∅ := by
  obtain ⟨_, _, _, nonempty⟩ := remaining_eq_some.mp found
  exact nonempty

end Remaining

/-- `current` is `state` after the entities in `gone` left their groups and, where a target is
given, were registered with it. -/
structure Moved (state : ReplayState) (target : Option Uuid) (gone : Finset Uuid)
    (current : ReplayState) : Prop where
  membership : ∀ e, current.membership.lookup e =
    if e ∈ gone then target else state.membership.lookup e
  groups : ∀ g, current.groups.lookup g = remaining (state.groups.lookup g) gone
  blocked : current.blocked = state.blocked
  applied : current.applied = state.applied
  skipped : current.skipped = state.skipped

theorem Moved.refl {state : ReplayState} (consistent : Consistent state) (target : Option Uuid) :
    Moved state target ∅ state where
  membership e := by simp
  groups g := (remaining_empty (consistent.nonempty g)).symm
  blocked := rfl
  applied := rfl
  skipped := rfl

/-- The description leaves nothing open. -/
theorem Moved.unique {state first second : ReplayState} {target : Option Uuid} {gone : Finset Uuid}
    (one : Moved state target gone first) (two : Moved state target gone second) :
    first = second := by
  have membership : first.membership = second.membership :=
    Finmap.ext_lookup fun e => (one.membership e).trans (two.membership e).symm
  have groups : first.groups = second.groups :=
    Finmap.ext_lookup fun g => (one.groups g).trans (two.groups g).symm
  obtain ⟨m, g, b, a, s⟩ := first
  obtain ⟨m', g', b', a', s'⟩ := second
  cases membership
  cases groups
  cases one.blocked.trans two.blocked.symm
  cases one.applied.trans two.applied.symm
  cases one.skipped.trans two.skipped.symm
  rfl

/-- `leave` takes one more entity out. -/
theorem leave_moved {state current : ReplayState} {target : Option Uuid} {gone : Finset Uuid}
    {e : Uuid} (consistent : Consistent state) (moved : Moved state target gone current)
    (fresh : e ∉ gone) :
    ∃ next, leave e current = .ok next ∧ next.membership.lookup e = none ∧
      (∀ x, x ≠ e → next.membership.lookup x = current.membership.lookup x) ∧
      (∀ g, next.groups.lookup g = remaining (state.groups.lookup g) (insert e gone)) ∧
      next.blocked = state.blocked ∧ next.applied = state.applied ∧ next.skipped = state.skipped := by
  have here : current.membership.lookup e = state.membership.lookup e := by
    rw [moved.membership, if_neg fresh]
  unfold leave
  cases found : current.membership.lookup e with
  | none =>
    refine ⟨current, rfl, found, fun _ _ => rfl, fun g => ?_, moved.blocked, moved.applied,
      moved.skipped⟩
    rw [moved.groups, remaining_insert_of_notMem]
    intro s held within
    have := consistent.member g s held e within
    rw [← here, found] at this
    cases this
  | some old =>
    obtain ⟨s, held, within⟩ := consistent.held e old (here ▸ found)
    have stays : e ∈ s \ gone := Finset.mem_sdiff.mpr ⟨within, fresh⟩
    have still : current.groups.lookup old = some (s \ gone) := by
      rw [moved.groups, remaining_eq_some]
      exact ⟨s, held, rfl, Finset.ne_empty_of_mem stays⟩
    have left : (s \ gone).erase e = s \ insert e gone := (Finset.sdiff_insert s gone e).symm
    simp only [still, require, bind, Except.bind, pure, Except.pure]
    refine ⟨_, rfl, ?_, ?_, ?_, moved.blocked, moved.applied, moved.skipped⟩
    · exact Finmap.lookup_erase e _
    · intro x other
      exact Finmap.lookup_erase_ne other
    · intro g
      by_cases same : g = old
      · cases same
        rw [left, held, remaining, Option.bind_some]
        split
        · exact Finmap.lookup_erase _ _
        · exact Finmap.lookup_insert _
      · have outside : remaining (state.groups.lookup g) (insert e gone) =
            remaining (state.groups.lookup g) gone := by
          apply remaining_insert_of_notMem
          intro t also inside
          have := consistent.member g t also e inside
          rw [← here, found] at this
          cases this
          exact same rfl
        rw [outside, ← moved.groups]
        split
        · exact Finmap.lookup_erase_ne same
        · exact Finmap.lookup_insert_of_ne _ same

/-- A loop whose body takes one more entity out takes out all it visits. -/
theorem foldlM_moved {state : ReplayState} (consistent : Consistent state) {target : Option Uuid}
    {step : ReplayState → Uuid → Except ContractError ReplayState}
    (each : ∀ current gone e, Moved state target gone current → e ∉ gone →
      ∃ next, step current e = .ok next ∧ Moved state target (insert e gone) next)
    {visited : List Uuid} (nodup : visited.Nodup) :
    ∃ next, visited.foldlM step state = .ok next ∧ Moved state target visited.toFinset next := by
  suffices extend : ∀ (current : ReplayState) (gone : Finset Uuid),
      Moved state target gone current → (∀ e ∈ visited, e ∉ gone) →
      ∃ next, visited.foldlM step current = .ok next ∧
        Moved state target (gone ∪ visited.toFinset) next by
    simpa using extend state ∅ (Moved.refl consistent target) (by simp)
  induction visited with
  | nil => exact fun current gone moved _ => ⟨current, rfl, by simpa using moved⟩
  | cons e visited ih =>
    intro current gone moved fresh
    have parts := List.nodup_cons.mp nodup
    obtain ⟨next, stepped, further⟩ := each current gone e moved (fresh e List.mem_cons_self)
    have later : ∀ x ∈ visited, x ∉ insert e gone := by
      intro x member
      rw [Finset.mem_insert, not_or]
      exact ⟨fun same => parts.1 (same ▸ member), fresh x (List.mem_cons_of_mem _ member)⟩
    obtain ⟨last, rest, done⟩ := ih parts.2 next (insert e gone) further later
    refine ⟨last, ?_, ?_⟩
    · rw [List.foldlM_cons, stepped]
      exact rest
    · rwa [List.toFinset_cons, Finset.union_insert, ← Finset.insert_union]

theorem moveTo_moved {state : ReplayState} (consistent : Consistent state) (groupId : Uuid)
    {visited : List Uuid} (nodup : visited.Nodup) :
    ∃ next, moveTo groupId visited state = .ok next ∧
      Moved state (some groupId) visited.toFinset next := by
  apply foldlM_moved consistent _ nodup
  intro current gone e moved fresh
  obtain ⟨without, left, -, others, groups, blocked, applied, skipped⟩ :=
    leave_moved consistent moved fresh
  refine ⟨{ without with membership := without.membership.insert e groupId }, ?_, ?_, groups,
    blocked, applied, skipped⟩
  · rw [left]
    rfl
  · intro x
    by_cases same : x = e
    · cases same
      simp [Finmap.lookup_insert]
    · simp [Finmap.lookup_insert_of_ne _ same, others x same, moved.membership, same]

theorem leaveAll_moved {state : ReplayState} (consistent : Consistent state)
    {visited : List Uuid} (nodup : visited.Nodup) :
    ∃ next, visited.foldlM (fun state entity => leave entity state) state = .ok next ∧
      Moved state none visited.toFinset next := by
  apply foldlM_moved consistent _ nodup
  intro current gone e moved fresh
  obtain ⟨next, left, absent, others, groups, blocked, applied, skipped⟩ :=
    leave_moved consistent moved fresh
  refine ⟨next, left, ?_, groups, blocked, applied, skipped⟩
  intro x
  by_cases same : x = e
  · cases same
    simp [absent]
  · simp [others x same, moved.membership, same]

/-- The members of a decision and whoever shares a group with one of them. -/
def Affected (state : ReplayState) (members : Finset Uuid) (x : Uuid) : Prop :=
  x ∈ members ∨ ∃ m ∈ members, ∃ g, state.membership.lookup m = some g ∧
    state.membership.lookup x = some g

theorem affectedBy_spec {state : ReplayState} (consistent : Consistent state) (members : Finset Uuid)
    {visited : List Uuid} (all : ∀ x, x ∈ visited ↔ x ∈ members) :
    ∃ affected, affectedBy state members visited = .ok affected ∧
      ∀ x, x ∈ affected ↔ Affected state members x := by
  suffices extend : ∀ (visited : List Uuid) (start : Finset Uuid),
      ∃ affected, affectedBy state start visited = .ok affected ∧
        ∀ x, x ∈ affected ↔ x ∈ start ∨ ∃ m ∈ visited, ∃ g,
          state.membership.lookup m = some g ∧ state.membership.lookup x = some g by
    obtain ⟨affected, found, spec⟩ := extend visited members
    refine ⟨affected, found, fun x => ?_⟩
    simp only [spec, all, Affected]
  intro visited
  induction visited with
  | nil => exact fun start => ⟨start, rfl, by simp⟩
  | cons m visited ih =>
    intro start
    unfold affectedBy at ih ⊢
    rw [List.foldlM_cons]
    cases found : state.membership.lookup m with
    | none =>
      obtain ⟨affected, rest, spec⟩ := ih start
      exact ⟨affected, rest, by simp [spec, found]⟩
    | some g =>
      obtain ⟨s, held, _⟩ := consistent.held m g found
      have share : ∀ x, x ∈ s ↔ state.membership.lookup x = some g := by
        intro x
        constructor
        · exact consistent.member g s held x
        · intro here
          obtain ⟨t, also, inside⟩ := consistent.held x g here
          rw [held] at also
          cases also
          exact inside
      obtain ⟨affected, rest, spec⟩ := ih (start ∪ s)
      refine ⟨affected, ?_, fun x => ?_⟩
      · simp only [held, require, bind, Except.bind, pure, Except.pure]
        exact rest
      · rw [spec, Finset.mem_union, share]
        simp only [List.mem_cons, exists_eq_or_imp, found, Option.some.injEq, exists_eq_left',
          or_assoc]

/-- The group that a group action writes: what it held before and the affected. -/
theorem Moved.lookup_update {state moved : ReplayState} {groupId : Uuid} {affected : Finset Uuid}
    (left : Moved state (some groupId) affected moved) :
    (moved.update groupId affected).groups.lookup groupId =
      some ((state.groups.lookup groupId).getD ∅ ∪ affected) := by
  rw [ReplayState.update, Finmap.lookup_insert, left.groups]
  congr 1
  cases state.groups.lookup groupId with
  | none => rfl
  | some s =>
    rw [remaining, Option.bind_some]
    split
    · rename_i empty
      rw [Option.getD_none, Option.getD_some, Finset.empty_union,
        Finset.union_eq_right.mpr (Finset.sdiff_eq_empty_iff_subset.mp empty)]
    · rw [Option.getD_some, Option.getD_some, Finset.sdiff_union_self_eq_union]

theorem Moved.lookup_update_of_ne {state moved : ReplayState} {groupId g : Uuid}
    {affected : Finset Uuid} (left : Moved state (some groupId) affected moved) (other : g ≠ groupId) :
    (moved.update groupId affected).groups.lookup g = remaining (state.groups.lookup g) affected := by
  rw [ReplayState.update, Finmap.lookup_insert_of_ne _ other, left.groups]

theorem Moved.consistent_update {state moved : ReplayState} {groupId : Uuid} {affected : Finset Uuid}
    (consistent : Consistent state) (left : Moved state (some groupId) affected moved)
    (present : affected ≠ ∅) : Consistent (moved.update groupId affected) where
  held e g registered := by
    by_cases target : g = groupId
    · cases target
      refine ⟨_, left.lookup_update, ?_⟩
      by_cases inside : e ∈ affected
      · exact Finset.mem_union_right _ inside
      · have before := (left.membership e).symm.trans registered
        rw [if_neg inside] at before
        obtain ⟨s, held, within⟩ := consistent.held e groupId before
        rw [held]
        exact Finset.mem_union_left _ within
    · have before := (left.membership e).symm.trans registered
      rw [left.lookup_update_of_ne target]
      split at before
      · cases before
        exact absurd rfl target
      · rename_i outside
        exact consistent.held_remaining before outside
  member g s found e within := by
    show moved.membership.lookup e = _
    rw [left.membership]
    by_cases target : g = groupId
    · cases target
      rw [left.lookup_update] at found
      cases found
      split
      · rfl
      · rename_i outside
        have before := (Finset.mem_union.mp within).resolve_right outside
        cases held : state.groups.lookup groupId with
        | none => simp [held] at before
        | some s => exact consistent.member groupId s held e (by simpa [held] using before)
    · rw [left.lookup_update_of_ne target] at found
      obtain ⟨stays, registered⟩ := consistent.member_remaining found within
      rw [if_neg stays, registered]
  nonempty g s found := by
    by_cases target : g = groupId
    · cases target
      rw [left.lookup_update] at found
      cases found
      exact fun empty => present (Finset.union_eq_empty.mp empty).2
    · rw [left.lookup_update_of_ne target] at found
      exact nonempty_of_remaining found

theorem Moved.consistent_none {state moved : ReplayState} {gone : Finset Uuid}
    (consistent : Consistent state) (left : Moved state none gone moved) : Consistent moved where
  held e g registered := by
    rw [left.membership] at registered
    rw [left.groups]
    split at registered
    · cases registered
    · rename_i outside
      exact consistent.held_remaining registered outside
  member g s found e within := by
    rw [left.groups] at found
    obtain ⟨stays, registered⟩ := consistent.member_remaining found within
    rw [left.membership, if_neg stays, registered]
  nonempty g s found := by
    rw [left.groups] at found
    exact nonempty_of_remaining found

end Collector.Contracts
