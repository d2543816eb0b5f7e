import Collector.Contracts.Replay

/-!
The two indexes of the replay after every step. A turn takes the affected entities out of their
groups before it puts them into the canonical one, possibly the same; at its end membership and
groups say the same again, only the affected have moved, and the snapshot is a partition.
-/

namespace Collector.Contracts
open Collector.Lib

/-- What holds between two decisions: an entity is registered with a group exactly when it is in
it, and the groups are disjoint and not empty. -/
structure IndexesAgree (state : ReplayState) : Prop where
  registered_iff : ∀ e g, state.membership.lookup e = some g ↔
    ∃ s, state.groups.lookup g = some s ∧ e ∈ s
  disjoint : ∀ g h s t, state.groups.lookup g = some s → state.groups.lookup h = some t → g ≠ h →
    Disjoint s t
  nonempty : ∀ g s, state.groups.lookup g = some s → s.Nonempty

theorem Consistent.indexesAgree {state : ReplayState} (consistent : Consistent state) :
    IndexesAgree state where
  registered_iff e g := by
    constructor
    · exact consistent.held e g
    · rintro ⟨s, found, member⟩
      exact consistent.member g s found e member
  disjoint g h s t first second apart := by
    rw [Finset.disjoint_left]
    intro e here there
    have left := consistent.member g s first e here
    rw [consistent.member h t second e there] at left
    exact apart (Option.some.inj left).symm
  nonempty g s found := Finset.nonempty_iff_ne_empty.mpr (consistent.nonempty g s found)

/-- The entities that a decision may move. -/
def Touched (before : ReplayState) (d : ResolutionDecision) (x : Uuid) : Prop :=
  if d.action.groups then Affected before d.memberEntityIds.toFinset x
  else d.action = .unmerge ∧ x ∈ d.memberEntityIds

/-- What one turn does to the membership. -/
structure StepEffect (d : ResolutionDecision) (before after : ReplayState) : Prop where
  listed : after.applied = before.applied ++ [d.decisionId] ∧ after.skipped = before.skipped ∨
    after.applied = before.applied ∧ after.skipped = before.skipped ++ [d.decisionId]
  gathered : d.action.groups = true → after.applied = before.applied ++ [d.decisionId] →
    d.canonicalGroupId.isSome = true ∧ ∀ x, Affected before d.memberEntityIds.toFinset x →
      after.membership.lookup x = d.canonicalGroupId
  skipped : after.applied = before.applied →
    after.membership = before.membership ∧ after.groups = before.groups
  kept : ∀ x, ¬ Touched before d x → after.membership.lookup x = before.membership.lookup x

theorem append_singleton_ne {α : Type} (xs : List α) (x : α) : xs ≠ xs ++ [x] := by
  intro same
  have lengths := congrArg List.length same
  rw [List.length_append, List.length_singleton] at lengths
  omega

theorem Turn.effect {d : ResolutionDecision} {before after : ReplayState}
    (turn : Turn d before after) : StepEffect d before after := by
  cases turn with
  | skipped affected spec merge within =>
    exact ⟨.inr ⟨rfl, rfl⟩, fun _ more => absurd more (append_singleton_ne _ _),
      fun _ => ⟨rfl, rfl⟩, fun _ _ => rfl⟩
  | grouped groupId affected moved target groups spec free left =>
    have applied : ((moved.update groupId affected).apply d).applied =
        before.applied ++ [d.decisionId] := by rw [← left.applied]; rfl
    refine ⟨.inl ⟨applied, left.skipped⟩, fun _ _ => ⟨by rw [target]; rfl, fun x touched => ?_⟩,
      fun same => absurd (same.symm.trans applied) (append_singleton_ne _ _), fun x aside => ?_⟩
    · exact (left.membership x).trans (by rw [if_pos ((spec x).mpr touched), target])
    · rw [Touched, if_pos groups, ← spec] at aside
      exact (left.membership x).trans (if_neg aside)
  | blocked block =>
    refine ⟨.inl ⟨rfl, rfl⟩, fun groups => ?_,
      fun same => absurd same.symm (append_singleton_ne _ _), fun _ _ => rfl⟩
    rw [block] at groups
    cases groups
  | unmerged moved unmerge left =>
    have applied : (moved.apply d).applied = before.applied ++ [d.decisionId] := by
      rw [← left.applied]
      rfl
    refine ⟨.inl ⟨applied, left.skipped⟩, fun groups => ?_,
      fun same => absurd (same.symm.trans applied) (append_singleton_ne _ _), fun x aside => ?_⟩
    · rw [unmerge] at groups
      cases groups
    · rw [Touched, unmerge, if_neg nofun] at aside
      have outside : x ∉ d.memberEntityIds.toFinset := fun member =>
        aside ⟨rfl, List.mem_toFinset.mp member⟩
      exact (left.membership x).trans (if_neg outside)
  | rejected reject =>
    refine ⟨.inl ⟨rfl, rfl⟩, fun groups => ?_,
      fun same => absurd same.symm (append_singleton_ne _ _), fun _ _ => rfl⟩
    rw [reject] at groups
    cases groups

/-- The replay of a prefix, and one more turn. -/
theorem replay_append (orders : Nat → SetOrder) (earlier : List ResolutionDecision)
    (d : ResolutionDecision) (state : ReplayState) :
    replay orders (earlier ++ [d]) state =
      (replay orders earlier state).bind
        (replayDecision (orders (2 * earlier.length)) (orders (2 * earlier.length + 1)) d) := by
  induction earlier generalizing orders state with
  | nil =>
    simp only [List.nil_append, replay, List.length_nil, Nat.mul_zero, Nat.zero_add, bind,
      Except.bind]
    cases replayDecision (orders 0) (orders 1) d state <;> rfl
  | cons first earlier ih =>
    simp only [List.cons_append, replay, bind, Except.bind]
    cases replayDecision (orders 0) (orders 1) first state with
    | error e => rfl
    | ok next =>
      have further := ih (fun n => orders (n + 2)) next
      dsimp only
      rw [further, List.length_cons, show 2 * (earlier.length + 1) = 2 * earlier.length + 2 by omega]
      rfl

/-- Every prefix of a replay answers, in a consistent state; one more decision is one turn. -/
theorem replay_step (orders : Nat → SetOrder) (earlier : List ResolutionDecision)
    (d : ResolutionDecision) :
    ∃ before after, replay orders earlier .start = .ok before ∧
      replay orders (earlier ++ [d]) .start = .ok after ∧ Consistent before ∧ Consistent after ∧
      StepEffect d before after := by
  obtain ⟨before, consistent, answers⟩ := replay_answers consistent_start earlier
  obtain ⟨after, done, turn⟩ := replayDecision_turn consistent (orders (2 * earlier.length))
    (orders (2 * earlier.length + 1)) d
  refine ⟨before, after, answers orders, ?_, consistent, turn.consistent consistent, turn.effect⟩
  rw [replay_append, answers orders]
  exact done

/-- Every entity is in at most one group of the snapshot, and every group has at least two
members, sorted and different. -/
structure Partition (snapshot : ResolutionSnapshot) : Prop where
  single : ∀ g ms h ns e, (g, ms) ∈ snapshot.groups → (h, ns) ∈ snapshot.groups → e ∈ ms → e ∈ ns →
    g = h
  distinct : (snapshot.groups.map Prod.fst).Pairwise (· < ·)
  members : ∀ g ms, (g, ms) ∈ snapshot.groups → 2 ≤ ms.length ∧ ms.Pairwise (· < ·)

theorem mem_snapshot_groups {state : ReplayState} {superseded : Finset Uuid} {g : Uuid}
    {ms : List Uuid} (listed : (g, ms) ∈ (snapshot state superseded).groups) :
    ∃ s, state.groups.lookup g = some s ∧ 2 ≤ s.card ∧
      ms = sortedSet id Function.injective_id s := by
  obtain ⟨key, -, chosen⟩ := List.mem_filterMap.mp listed
  obtain ⟨s, found, chosen⟩ := Option.bind_eq_some_iff.mp chosen
  split at chosen
  · rename_i enough
    cases chosen
    exact ⟨s, found, enough, rfl⟩
  · cases chosen

theorem Consistent.partition {state : ReplayState} (consistent : Consistent state)
    (superseded : Finset Uuid) : Partition (snapshot state superseded) where
  single g ms h ns e first second here there := by
    obtain ⟨s, found, -, rfl⟩ := mem_snapshot_groups first
    obtain ⟨t, also, -, rfl⟩ := mem_snapshot_groups second
    rw [mem_sortedSet] at here there
    have left := consistent.member g s found e here
    rw [consistent.member h t also e there] at left
    exact (Option.some.inj left).symm
  distinct := by
    rw [List.pairwise_map]
    apply (sortedSet_pairwise id state.groups.keys).filterMap
    intro g h below first chosen second also
    obtain ⟨s, -, picked⟩ := Option.bind_eq_some_iff.mp chosen
    obtain ⟨t, -, taken⟩ := Option.bind_eq_some_iff.mp also
    split at picked
    · split at taken
      · cases picked
        cases taken
        exact below
      · cases taken
    · cases picked
  members g ms listed := by
    obtain ⟨s, -, enough, rfl⟩ := mem_snapshot_groups listed
    exact ⟨by rw [length_sortedSet]; exact enough, sortedSet_pairwise id s⟩

/-- The passes end with a fixed point or with the error about the cycle. -/
theorem settle_error {candidates : List ResolutionDecision} {left : Nat} {superseded : Finset Uuid}
    {e : ContractError} (failed : settle candidates left superseded = .error e) :
    e = .valueError "supersedes_decision_id утворює цикл — replay неможливий" := by
  induction left generalizing superseded with
  | zero =>
    cases failed
    rfl
  | succ left ih =>
    simp only [settle] at failed
    split at failed
    · cases failed
    · exact ih failed

/-- The indexes agree before the first decision and after every step of the replay, an applied
group action gathers all the affected in its group, nothing else moves, no lookup fails, and the
snapshot is a partition. -/
theorem replay_keeps_indexes (orders : Nat → SetOrder) (decisions : List ResolutionDecision) :
    IndexesAgree .start ∧
    (∀ effective superseded, effectiveDecisions decisions = .ok (effective, superseded) →
      ∀ earlier d later, sortedBy replayKey effective = earlier ++ d :: later →
        ∃ before after, replay orders earlier .start = .ok before ∧
          replay orders (earlier ++ [d]) .start = .ok after ∧ IndexesAgree after ∧
          StepEffect d before after) ∧
    projectGroups orders decisions ≠ .error .keyError ∧
    ∀ snapshot, projectGroups orders decisions = .ok snapshot → Partition snapshot := by
  have shape : ∀ effective superseded, effectiveDecisions decisions = .ok (effective, superseded) →
      ∃ state, Consistent state ∧ projectGroups orders decisions = .ok (snapshot state superseded) := by
    intro effective superseded settled
    obtain ⟨state, consistent, answers⟩ :=
      replay_answers consistent_start (sortedBy replayKey effective)
    refine ⟨state, consistent, ?_⟩
    simp only [projectGroups, settled, answers, bind, Except.bind]
    rfl
  refine ⟨consistent_start.indexesAgree, ?_, ?_, ?_⟩
  · intro _ _ _ earlier d _ _
    obtain ⟨before, after, start, done, -, consistent, effect⟩ := replay_step orders earlier d
    exact ⟨before, after, start, done, consistent.indexesAgree, effect⟩
  · intro failed
    cases settled : effectiveDecisions decisions with
    | error e =>
      have cycle := settle_error settled
      simp only [projectGroups, settled, bind, Except.bind, cycle] at failed
      cases failed
    | ok pair =>
      obtain ⟨state, -, answer⟩ := shape pair.1 pair.2 settled
      rw [failed] at answer
      cases answer
  · intro result answered
    cases settled : effectiveDecisions decisions with
    | error e =>
      simp only [projectGroups, settled, bind, Except.bind] at answered
      cases answered
    | ok pair =>
      obtain ⟨state, consistent, answer⟩ := shape pair.1 pair.2 settled
      rw [answered] at answer
      cases answer
      exact consistent.partition pair.2

end Collector.Contracts
