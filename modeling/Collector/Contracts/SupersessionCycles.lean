import Collector.Contracts.Supersession
import Collector.Contracts.ReplayIndexes
import Collector.Lib.Cancellation

/-!
Cycles of `supersedes_decision_id`. The passes of `_effective_decisions` find a cycle only by not
coming to rest, and a cycle that loses a member to an effective decision outside it comes to rest:
the replay then answers. Every other cycle keeps the passes moving and is an error.
-/

namespace Collector.Contracts
open Collector.Lib Relation

/-- A decision outside the cycle of `x` that is effective names a member of the cycle. -/
def BrokenFromOutside (candidates : List ResolutionDecision) (x : Uuid) : Prop :=
  ∃ member outside, SameCycle (Supersedes candidates) x member ∧
    Supersedes candidates outside member ∧ ¬ SameCycle (Supersedes candidates) x outside ∧
    Stands (Supersedes candidates) outside

/-- A decision names one other at most. -/
theorem LatestOf.supersedes_single {decisions latest : List ResolutionDecision}
    (spec : LatestOf decisions latest) (y x x' : Uuid) (first : Supersedes latest y x)
    (second : Supersedes latest y x') : x = x' := by
  obtain ⟨c, here, id, names⟩ := first
  obtain ⟨d, there, again, also⟩ := second
  rw [spec.eq_of_id_eq here there (id.trans again.symm), also] at names
  exact (Option.some.inj names).symm

/-- The ids that are named. -/
def supersededIds (candidates : List ResolutionDecision) : Finset Uuid :=
  (candidates.filterMap fun d => d.supersedesDecisionId).toFinset

theorem supersedes_named {candidates : List ResolutionDecision} (y x : Uuid)
    (names : Supersedes candidates y x) : x ∈ supersededIds candidates := by
  obtain ⟨d, member, -, named⟩ := names
  exact List.mem_toFinset.mpr (List.mem_filterMap.mpr ⟨d, member, named⟩)

theorem card_supersededIds (candidates : List ResolutionDecision) :
    (supersededIds candidates).card ≤ candidates.length :=
  (List.toFinset_card_le _).trans (List.length_filterMap_le _ _)

/-- The loop returns exactly when the passes settle. -/
theorem effectiveDecisions_ok_iff (decisions : List ResolutionDecision) :
    (∃ result, effectiveDecisions decisions = .ok result) ↔
      passes (Supersedes (latestDecisions decisions))
          ((supersededIds (latestDecisions decisions)).card + 1) =
        passes (Supersedes (latestDecisions decisions))
          (supersededIds (latestDecisions decisions)).card := by
  constructor
  · rintro ⟨⟨effective, superseded⟩, returned⟩
    obtain ⟨n, settled⟩ := settle_passes (n := 0) (by simp [passes]) returned
    exact passes_settle supersedes_named settled
  · intro settled
    have few := card_supersededIds (latestDecisions decisions)
    exact settle_returns (n := 0) (by simp [passes]) settled (Nat.zero_le _) (by omega)

/-- The replay fails exactly when the passes do, and then with the error about the cycle. -/
theorem projectGroups_valueError_iff (orders : Nat → SetOrder)
    (decisions : List ResolutionDecision) :
    (∃ message, projectGroups orders decisions = .error (.valueError message)) ↔
      ¬ ∃ result, effectiveDecisions decisions = .ok result := by
  cases settled : effectiveDecisions decisions with
  | error e =>
    apply iff_of_true
    · have failed : projectGroups orders decisions = .error e := by
        simp only [projectGroups, settled, bind, Except.bind]
      exact ⟨_, failed.trans (congrArg _ (settle_error settled))⟩
    · rintro ⟨result, returned⟩
      cases returned
  | ok pair =>
    obtain ⟨state, -, answers⟩ := replay_answers consistent_start (sortedBy replayKey pair.1)
    apply iff_of_false
    · rintro ⟨message, failed⟩
      simp only [projectGroups, settled, answers, bind, Except.bind] at failed
      cases failed
    · exact fun none => none ⟨pair, rfl⟩

/-- `project_groups` rejects the decisions exactly when some cycle is not broken from outside. -/
theorem cycle_rejected_iff (orders : Nat → SetOrder) (decisions : List ResolutionDecision) :
    (∃ message, projectGroups orders decisions = .error (.valueError message)) ↔
      ∃ x, TransGen (Supersedes (latestDecisions decisions)) x x ∧
        ¬ BrokenFromOutside (latestDecisions decisions) x := by
  have single := (latestDecisions_spec decisions).supersedes_single
  rw [projectGroups_valueError_iff, effectiveDecisions_ok_iff,
    passes_settle_iff supersedes_named single]
  simp only [falls_on_cycle_iff, not_forall, exists_prop]
  rfl

namespace Sample

/-- Two decisions that name each other, and a third that names the first. -/
def brokenCycle : List ResolutionDecision :=
  [cancel 1 2 (by decide), cancel 2 1 first_ne_second, cancel 3 1 (by decide)]

end Sample

/-- The two supersede each other, yet the replay answers. -/
theorem cycle_answered :
    TransGen (Supersedes (latestDecisions Sample.brokenCycle)) 1 1 ∧
      ¬ ∃ message, projectGroups (fun _ => SetOrder.ascending) Sample.brokenCycle =
        .error (.valueError message) := by
  constructor
  · have first : Supersedes (latestDecisions Sample.brokenCycle) 1 2 :=
      ⟨Sample.cancel 1 2 (by decide), by decide, rfl, rfl⟩
    have second : Supersedes (latestDecisions Sample.brokenCycle) 2 1 :=
      ⟨Sample.cancel 2 1 (by decide), by decide, rfl, rfl⟩
    exact .head first (.single second)
  · rw [projectGroups_valueError_iff, not_not]
    exact ⟨([Sample.cancel 2 1 (by decide), Sample.cancel 3 1 (by decide)], {1}), by decide⟩

end Collector.Contracts
