import Collector.Contracts.Replay
import Collector.Contracts.Supersession

/-!
Manual blocks against auto merges. The check before a merge covers the members and the groups
they are in, but not what the target group already holds, so an applied merge leaves a blocked
pair in its group exactly when one of the pair was waiting there.
-/

namespace Collector.Contracts
open Collector.Lib

/-- A turn of the replay of a list: `d` is taken in the state that its predecessors lead to. -/
def ReplayTurn (orders : Nat → SetOrder) (decisions : List ResolutionDecision)
    (d : ResolutionDecision) (before after : ReplayState) : Prop :=
  ∃ effective superseded earlier later,
    effectiveDecisions decisions = .ok (effective, superseded) ∧
    sortedBy replayKey effective = earlier ++ d :: later ∧
    replay orders earlier .start = .ok before ∧
    replayDecision (orders (2 * earlier.length)) (orders (2 * earlier.length + 1)) d before = .ok after

/-- The turn applies an auto merge into `groupId`. -/
structure AppliedMerge (d : ResolutionDecision) (groupId : Uuid) (before after : ReplayState) :
    Prop where
  merge : d.action = .merge
  target : d.canonicalGroupId = some groupId
  applied : after.applied = before.applied ++ [d.decisionId]

/-- The group holds no pair that is blocked. -/
def NoBlockedPair (state : ReplayState) (groupId : Uuid) : Prop :=
  ∀ pair ∈ state.blocked, ¬ (pair.1 ∈ (state.groups.lookup groupId).getD ∅ ∧
    pair.2 ∈ (state.groups.lookup groupId).getD ∅)

/-- In every turn that applies an auto merge, the target group is left without a blocked pair. -/
def BlocksHold (orders : Nat → SetOrder) (decisions : List ResolutionDecision) : Prop :=
  ∀ d groupId before after, ReplayTurn orders decisions d before after →
    AppliedMerge d groupId before after → NoBlockedPair after groupId

/-- A member of the decision is in the target group already, or nobody in that group is blocked
with another one there or with one of the affected. -/
def TargetClear (before : ReplayState) (d : ResolutionDecision) (groupId : Uuid) : Prop :=
  (∃ m ∈ d.memberEntityIds, before.membership.lookup m = some groupId) ∨
  ∀ a b, (a, b) ∈ before.blocked ∨ (b, a) ∈ before.blocked →
    before.membership.lookup a = some groupId →
    ¬ (before.membership.lookup b = some groupId ∨ Affected before d.memberEntityIds.toFinset b)

/-- The replay only ever passes through consistent states. -/
theorem ReplayTurn.turn {orders : Nat → SetOrder} {decisions : List ResolutionDecision}
    {d : ResolutionDecision} {before after : ReplayState}
    (turn : ReplayTurn orders decisions d before after) :
    Consistent before ∧ Turn d before after := by
  obtain ⟨_, _, earlier, _, _, _, reached, taken⟩ := turn
  obtain ⟨last, consistent, answers⟩ := replay_answers consistent_start earlier
  rw [answers] at reached
  cases reached
  obtain ⟨next, answered, described⟩ := replayDecision_turn consistent _ _ d
  rw [taken] at answered
  cases answered
  exact ⟨consistent, described⟩

theorem Consistent.mem_group {state : ReplayState} (consistent : Consistent state) {g x : Uuid} :
    x ∈ (state.groups.lookup g).getD ∅ ↔ state.membership.lookup x = some g := by
  constructor
  · intro inside
    cases held : state.groups.lookup g with
    | none => simp [held] at inside
    | some s => exact consistent.member g s held x (by simpa [held] using inside)
  · intro registered
    obtain ⟨s, held, inside⟩ := consistent.held x g registered
    simpa [held] using inside

/-- An applied merge leaves in the target group whom it held and the affected, among whom the
check has found no blocked pair. -/
theorem AppliedMerge.result {d : ResolutionDecision} {groupId : Uuid} {before after : ReplayState}
    (applied : AppliedMerge d groupId before after) (consistent : Consistent before)
    (turn : Turn d before after) :
    after.blocked = before.blocked ∧
      (∀ x, x ∈ (after.groups.lookup groupId).getD ∅ ↔
        before.membership.lookup x = some groupId ∨
          Affected before d.memberEntityIds.toFinset x) ∧
      ∀ pair ∈ before.blocked, ¬ (Affected before d.memberEntityIds.toFinset pair.1 ∧
        Affected before d.memberEntityIds.toFinset pair.2) := by
  have merge := applied.merge
  cases turn with
  | skipped =>
    have grown := applied.applied
    simp [ReplayState.skip] at grown
  | blocked other | unmerged _ other | rejected other =>
    rw [merge] at other
    cases other
  | grouped target affected moved given _ spec free left =>
    rw [applied.target] at given
    cases given
    refine ⟨left.blocked, fun x => ?_, fun pair blocked both => ?_⟩
    · show x ∈ ((moved.update groupId affected).groups.lookup groupId).getD ∅ ↔ _
      rw [left.lookup_update, Option.getD_some, Finset.mem_union, consistent.mem_group, spec]
    · apply free ⟨merge, _⟩
      simp only [blockedWithin, decide_eq_true_eq]
      exact ⟨pair, blocked, (spec _).mpr both.1, (spec _).mpr both.2⟩

theorem noBlockedPair_iff {d : ResolutionDecision} {groupId : Uuid} {before after : ReplayState}
    (applied : AppliedMerge d groupId before after) (consistent : Consistent before)
    (turn : Turn d before after) : NoBlockedPair after groupId ↔ TargetClear before d groupId := by
  obtain ⟨same, group, free⟩ := applied.result consistent turn
  unfold NoBlockedPair
  simp only [same, group]
  constructor
  · intro clear
    right
    rintro a b (blocked | blocked) held joins
    · exact clear _ blocked ⟨.inl held, joins⟩
    · exact clear _ blocked ⟨joins, .inl held⟩
  · rintro (⟨m, member, there⟩ | clear) ⟨a, b⟩ blocked ⟨first, second⟩
    · -- a member in the target group makes everybody there affected
      have inside : ∀ x, before.membership.lookup x = some groupId ∨
          Affected before d.memberEntityIds.toFinset x →
          Affected before d.memberEntityIds.toFinset x := by
        rintro x (held | affected)
        · exact .inr ⟨m, List.mem_toFinset.mpr member, groupId, there, held⟩
        · exact affected
      exact free _ blocked ⟨inside a first, inside b second⟩
    · rcases first with held | one
      · exact clear a b (.inl blocked) held second
      · rcases second with held | two
        · exact clear b a (.inr blocked) held (.inr one)
        · exact free _ blocked ⟨one, two⟩

/-- The blocks hold throughout a replay exactly when every auto merge that is applied finds its
target group clear. -/
theorem blocks_hold_iff (orders : Nat → SetOrder) (decisions : List ResolutionDecision) :
    BlocksHold orders decisions ↔ ∀ d groupId before after,
      ReplayTurn orders decisions d before after → AppliedMerge d groupId before after →
        TargetClear before d groupId := by
  constructor
  · intro hold d groupId before after turn applied
    obtain ⟨consistent, described⟩ := turn.turn
    exact (noBlockedPair_iff applied consistent described).mp
      (hold d groupId before after turn applied)
  · intro clear d groupId before after turn applied
    obtain ⟨consistent, described⟩ := turn.turn
    exact (noBlockedPair_iff applied consistent described).mpr
      (clear d groupId before after turn applied)

namespace Sample

def merge (id : Uuid) (members : List Uuid) (moment : UtcDatetime) (nodup : members.Nodup)
    (two : 2 ≤ members.length) : ResolutionDecision where
  decisionId := id
  decisionVersion := 1
  action := .merge
  memberEntityIds := members
  canonicalGroupId := some 100
  score := some 1
  effectiveAt := moment
  recordedAt := moment
  supersedesDecisionId := none
  versionPositive := Int.one_pos
  membersNonempty := by omega
  scoreInRange := by simp
  shape := by simp [shapeByAction, ResolutionAction.groups, ensure, nodup, two, bind, Except.bind]

def founding : ResolutionDecision :=
  merge 2 [entity 1, entity 2] 0 (by decide) (by decide)

def joining : ResolutionDecision :=
  merge 3 [entity 3, entity 4] 2 (by decide) (by decide)

end Sample

/-- Entities 1 and 2 form the group, 1 and 3 are blocked, and the merge of 3 and 4 into the same
group is applied: the pair is in it. -/
theorem merge_joins_blocked_pair :
    ¬ BlocksHold (fun _ => .ascending) [Sample.founding, Sample.block, Sample.joining] := by
  intro hold
  obtain ⟨before, consistent, reached⟩ :=
    replay_answers consistent_start [Sample.founding, Sample.block]
  obtain ⟨after, taken, _⟩ := replayDecision_turn consistent .ascending .ascending Sample.joining
  have facts : (do
      let before ← replay (fun _ => .ascending) [Sample.founding, Sample.block] .start
      let after ← replayDecision .ascending .ascending Sample.joining before
      return decide (after.applied = before.applied ++ [3] ∧
        (Sample.entity 1, Sample.entity 3) ∈ after.blocked ∧
        Sample.entity 1 ∈ (after.groups.lookup 100).getD ∅ ∧
        Sample.entity 3 ∈ (after.groups.lookup 100).getD ∅)).toOption = some true := by
    decide
  simp only [reached, taken, bind, Except.bind, pure, Except.pure, Except.toOption, Option.some.injEq,
    decide_eq_true_eq] at facts
  have turn : ReplayTurn (fun _ => .ascending) [Sample.founding, Sample.block, Sample.joining]
      Sample.joining before after :=
    ⟨[Sample.founding, Sample.block, Sample.joining], ∅, [Sample.founding, Sample.block], [], rfl,
      by decide, reached _, taken⟩
  exact hold Sample.joining 100 before after turn ⟨rfl, rfl, facts.1⟩ _ facts.2.1 facts.2.2

end Collector.Contracts
