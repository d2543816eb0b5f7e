import Collector.Contracts.Membership

/-!
One turn of the replay. In every state that the replay reaches the dictionaries are consistent, so
every turn answers, and what it leaves behind does not depend on the order in which it visits a set.
-/

namespace Collector.Contracts
open Collector.Lib

/-- What a turn leaves behind, said without the order of its loops. -/
inductive Turn (d : ResolutionDecision) (state : ReplayState) : ReplayState → Prop where
  | skipped (affected : Finset Uuid)
      (spec : ∀ x, x ∈ affected ↔ Affected state d.memberEntityIds.toFinset x)
      (merge : d.action = .merge) (within : blockedWithin state.blocked affected = true) :
      Turn d state (state.skip d)
  | grouped (groupId : Uuid) (affected : Finset Uuid) (moved : ReplayState)
      (target : d.canonicalGroupId = some groupId) (groups : d.action.groups = true)
      (spec : ∀ x, x ∈ affected ↔ Affected state d.memberEntityIds.toFinset x)
      (free : ¬ (d.action = .merge ∧ blockedWithin state.blocked affected = true))
      (left : Moved state (some groupId) affected moved) :
      Turn d state ((moved.update groupId affected).apply d)
  | blocked (block : d.action = .manualBlock) :
      Turn d state
        ({ state with blocked := state.blocked ∪ pairs d.memberEntityIds.toFinset }.apply d)
  | unmerged (moved : ReplayState) (unmerge : d.action = .unmerge)
      (left : Moved state none d.memberEntityIds.toFinset moved) : Turn d state (moved.apply d)
  | rejected (reject : d.action = .reject) : Turn d state (state.apply d)

theorem exists_groupId (d : ResolutionDecision) (groups : d.action.groups = true) :
    ∃ groupId, d.canonicalGroupId = some groupId := by
  have shape := d.shape
  unfold shapeByAction at shape
  obtain ⟨_, -, rest⟩ := Except.bind_eq_ok.mp shape
  rw [if_pos groups] at rest
  obtain ⟨_, given, -⟩ := Except.bind_eq_ok.mp rest
  rw [ensure_eq_ok] at given
  exact Option.isSome_iff_exists.mp given

/-- One order there is. -/
def SetOrder.ascending : SetOrder where
  visit := sortedSet id Function.injective_id
  nodup := nodup_sortedSet id
  mem_visit _ _ := mem_sortedSet id

theorem SetOrder.toFinset_visit (order : SetOrder) (s : Finset Uuid) : (order.visit s).toFinset = s := by
  ext x
  rw [List.mem_toFinset, order.mem_visit]

/-- A turn of a group action. -/
theorem replayDecision_groups {state : ReplayState} (consistent : Consistent state)
    (first second : SetOrder) {d : ResolutionDecision} (groups : d.action.groups = true) :
    ∃ next, replayDecision first second d state = .ok next ∧ Turn d state next := by
  obtain ⟨groupId, target⟩ := exists_groupId d groups
  obtain ⟨affected, found, spec⟩ := affectedBy_spec consistent d.memberEntityIds.toFinset
    (first.mem_visit d.memberEntityIds.toFinset)
  simp only [replayDecision, groups, if_true, requiredGroupId, target, require, found, bind,
    Except.bind, pure, Except.pure]
  by_cases free : d.action = .merge ∧ blockedWithin state.blocked affected = true
  · rw [if_pos free]
    exact ⟨_, rfl, .skipped affected spec free.1 free.2⟩
  · rw [if_neg free]
    obtain ⟨moved, done, left⟩ := moveTo_moved consistent groupId (second.nodup affected)
    rw [second.toFinset_visit] at left
    rw [done]
    exact ⟨_, rfl, .grouped groupId affected moved target groups spec free left⟩

/-- Every turn from a consistent state answers, and does what `Turn` says. -/
theorem replayDecision_turn {state : ReplayState} (consistent : Consistent state)
    (first second : SetOrder) (d : ResolutionDecision) :
    ∃ next, replayDecision first second d state = .ok next ∧ Turn d state next := by
  by_cases groups : d.action.groups = true
  · exact replayDecision_groups consistent first second groups
  · cases action : d.action with
    | merge | manualLink => simp [action, ResolutionAction.groups] at groups
    | manualBlock =>
      refine ⟨_, ?_, .blocked action⟩
      simp [replayDecision, action, ResolutionAction.groups, pure, Except.pure]
    | unmerge =>
      obtain ⟨moved, done, left⟩ :=
        leaveAll_moved consistent (first.nodup d.memberEntityIds.toFinset)
      rw [first.toFinset_visit] at left
      refine ⟨_, ?_, .unmerged moved action left⟩
      simp [replayDecision, action, ResolutionAction.groups, done, bind, Except.bind, pure,
        Except.pure]
    | reject =>
      refine ⟨_, ?_, .rejected action⟩
      simp [replayDecision, action, ResolutionAction.groups, pure, Except.pure]

/-- The description of a turn leaves nothing open. -/
theorem Turn.unique {d : ResolutionDecision} {state a b : ReplayState} (one : Turn d state a)
    (two : Turn d state b) : a = b := by
  have same : ∀ {s t : Finset Uuid}, (∀ x, x ∈ s ↔ Affected state d.memberEntityIds.toFinset x) →
      (∀ x, x ∈ t ↔ Affected state d.memberEntityIds.toFinset x) → s = t := fun first second =>
    Finset.ext fun x => (first x).trans (second x).symm
  cases one with
  | skipped affected spec merge within =>
    cases two with
    | skipped => rfl
    | grouped _ _ _ _ _ also free => exact absurd ⟨merge, same spec also ▸ within⟩ free
    | blocked other | unmerged _ other | rejected other => rw [merge] at other; cases other
  | grouped groupId affected moved target groups spec free left =>
    cases two with
    | skipped _ also merge within => exact absurd ⟨merge, same also spec ▸ within⟩ free
    | grouped other _ moved' target' _ also _ left' =>
      cases same spec also
      rw [target] at target'
      cases target'
      rw [left.unique left']
    | blocked other | unmerged _ other | rejected other =>
      rw [other] at groups
      cases groups
  | blocked block =>
    cases two with
    | blocked => rfl
    | grouped _ _ _ _ groups => rw [block] at groups; cases groups
    | skipped _ _ other | unmerged _ other | rejected other => rw [block] at other; cases other
  | unmerged moved unmerge left =>
    cases two with
    | unmerged _ _ left' => rw [left.unique left']
    | grouped _ _ _ _ groups => rw [unmerge] at groups; cases groups
    | skipped _ _ other | blocked other | rejected other => rw [unmerge] at other; cases other
  | rejected reject =>
    cases two with
    | rejected => rfl
    | grouped _ _ _ _ groups => rw [reject] at groups; cases groups
    | skipped _ _ other | blocked other | unmerged _ other => rw [reject] at other; cases other

theorem Turn.consistent {d : ResolutionDecision} {state next : ReplayState}
    (consistent : Consistent state) (turn : Turn d state next) : Consistent next := by
  cases turn with
  | skipped | blocked | rejected => exact ⟨consistent.held, consistent.member, consistent.nonempty⟩
  | grouped groupId affected moved _ _ spec _ left =>
    have present : affected ≠ ∅ := by
      obtain ⟨m, member⟩ := List.exists_mem_of_length_pos d.membersNonempty
      exact Finset.ne_empty_of_mem ((spec m).mpr (.inl (List.mem_toFinset.mpr member)))
    have updated := left.consistent_update consistent present
    exact ⟨updated.held, updated.member, updated.nonempty⟩
  | unmerged moved _ left =>
    have without := left.consistent_none consistent
    exact ⟨without.held, without.member, without.nonempty⟩

/-- The replay answers from every consistent state, stays consistent and does not depend on the
orders of its loops. -/
theorem replay_answers {state : ReplayState} (consistent : Consistent state)
    (ordered : List ResolutionDecision) :
    ∃ last, Consistent last ∧ ∀ orders, replay orders ordered state = .ok last := by
  induction ordered generalizing state with
  | nil => exact ⟨state, consistent, fun _ => rfl⟩
  | cons d ordered ih =>
    obtain ⟨next, _, turn⟩ := replayDecision_turn consistent .ascending .ascending d
    obtain ⟨last, kept, rest⟩ := ih (turn.consistent consistent)
    refine ⟨last, kept, fun orders => ?_⟩
    obtain ⟨also, done, again⟩ := replayDecision_turn consistent (orders 0) (orders 1) d
    rw [turn.unique again] at rest
    rw [replay, done]
    exact rest _

end Collector.Contracts
