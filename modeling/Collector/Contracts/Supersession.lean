import Collector.Contracts.Resolution
import Collector.Lib.Kernel

/-!
Which decisions take part in a replay. Of every decision only the highest version counts, and a
decision is superseded exactly while an effective one names it. The passes of
`_effective_decisions` are the passes of `Collector.Lib.Kernel` over the graph of those names.
-/

namespace Collector.Contracts
open Collector.Lib Relation

/-- One decision for every id, none of them older than another version of it. -/
structure LatestOf (decisions latest : List ResolutionDecision) : Prop where
  distinct : (latest.map fun d => d.decisionId).Nodup
  known : latest ⊆ decisions
  covers : ∀ d ∈ decisions, ∃ c ∈ latest, c.decisionId = d.decisionId ∧
    d.decisionVersion ≤ c.decisionVersion

theorem LatestOf.eq_of_id_eq {decisions latest : List ResolutionDecision}
    (spec : LatestOf decisions latest) {c d : ResolutionDecision} (here : c ∈ latest)
    (there : d ∈ latest) (same : c.decisionId = d.decisionId) : c = d :=
  List.inj_on_of_nodup_map spec.distinct here there same

/-- What the loop body does: a new id is appended, a higher version takes the place of the one
before it, and anything else is ignored. -/
theorem recordLatest_cases (latest : List ResolutionDecision) (d : ResolutionDecision) :
    ((∀ c ∈ latest, c.decisionId ≠ d.decisionId) ∧ recordLatest latest d = latest ++ [d]) ∨
    (∃ c ∈ latest, c.decisionId = d.decisionId ∧ d.decisionVersion ≤ c.decisionVersion ∧
      recordLatest latest d = latest) ∨
    (∃ c ∈ latest, c.decisionId = d.decisionId ∧ c.decisionVersion < d.decisionVersion ∧
      recordLatest latest d =
        latest.map fun c => if c.decisionId = d.decisionId then d else c) := by
  unfold recordLatest
  split
  · rename_i absent
    left
    simpa using absent
  · rename_i current found
    have member := List.mem_of_find?_eq_some found
    have same : current.decisionId = d.decisionId := by simpa using List.find?_some found
    right
    split
    · rename_i older
      exact .inr ⟨current, member, same, older, rfl⟩
    · rename_i older
      exact .inl ⟨current, member, same, not_lt.mp older, rfl⟩

theorem LatestOf.record {decisions latest : List ResolutionDecision}
    (spec : LatestOf decisions latest) (d : ResolutionDecision) :
    LatestOf (decisions ++ [d]) (recordLatest latest d) := by
  have extend : ∀ result : List ResolutionDecision,
      (∀ c ∈ latest, ∃ c' ∈ result, c'.decisionId = c.decisionId ∧
        c.decisionVersion ≤ c'.decisionVersion) →
      (∃ c' ∈ result, c'.decisionId = d.decisionId ∧ d.decisionVersion ≤ c'.decisionVersion) →
      ∀ e ∈ decisions ++ [d], ∃ c' ∈ result, c'.decisionId = e.decisionId ∧
        e.decisionVersion ≤ c'.decisionVersion := by
    intro result kept added e member
    rcases List.mem_append.mp member with old | new
    · obtain ⟨c, here, same, below⟩ := spec.covers e old
      obtain ⟨c', there, again, above⟩ := kept c here
      exact ⟨c', there, again.trans same, below.trans above⟩
    · rw [List.mem_singleton.mp new]
      exact added
  rcases recordLatest_cases latest d with ⟨fresh, result⟩ | ⟨c, here, same, newer, result⟩ |
    ⟨c, here, same, older, result⟩ <;> rw [result]
  · refine ⟨?_, ?_, extend _ ?_ ?_⟩
    · rw [List.map_append, List.map_singleton]
      apply spec.distinct.append (List.nodup_singleton _)
      simpa using fun c member => fresh c member
    · exact List.append_subset.mpr ⟨List.subset_append_of_subset_left _ spec.known,
        List.subset_append_right _ _⟩
    · exact fun c member => ⟨c, List.mem_append_left _ member, rfl, le_rfl⟩
    · exact ⟨d, List.mem_append_right _ (List.mem_singleton_self d), rfl, le_rfl⟩
  · refine ⟨spec.distinct, List.subset_append_of_subset_left _ spec.known, extend _ ?_ ?_⟩
    · exact fun c member => ⟨c, member, rfl, le_rfl⟩
    · exact ⟨c, here, same, newer⟩
  · have ids : (latest.map fun c => if c.decisionId = d.decisionId then d else c).map
        (fun c => c.decisionId) = latest.map fun c => c.decisionId := by
      rw [List.map_map]
      apply List.map_congr_left
      intro e _
      by_cases hit : e.decisionId = d.decisionId
      · simp [hit]
      · simp [hit]
    refine ⟨ids ▸ spec.distinct, ?_, extend _ ?_ ?_⟩
    · intro e member
      obtain ⟨o, old, rfl⟩ := List.mem_map.mp member
      split
      · exact List.mem_append_right _ (List.mem_singleton_self d)
      · exact List.mem_append_left _ (spec.known old)
    · intro o member
      refine ⟨_, List.mem_map_of_mem member, ?_⟩
      split
      · rename_i hit
        have unique := spec.eq_of_id_eq member here (hit.trans same.symm)
        exact ⟨hit.symm, unique ▸ older.le⟩
      · exact ⟨rfl, le_rfl⟩
    · refine ⟨d, ?_, rfl, le_rfl⟩
      rw [List.mem_map]
      exact ⟨c, here, if_pos same⟩

/-- `latest` holds the highest version of every decision id. -/
theorem latestDecisions_spec (decisions : List ResolutionDecision) :
    LatestOf decisions (latestDecisions decisions) := by
  induction decisions using List.reverseRecOn with
  | nil => exact ⟨List.nodup_nil, List.nil_subset _, by simp⟩
  | append_singleton decisions d ih =>
    unfold latestDecisions at ih ⊢
    rw [List.foldl_append]
    exact ih.record d

/-! ## The passes -/

/-- The decision with id `y` is among the candidates and names `x`. -/
def Supersedes (candidates : List ResolutionDecision) (y x : Uuid) : Prop :=
  ∃ d ∈ candidates, d.decisionId = y ∧ d.supersedesDecisionId = some x

/-- An id is superseded exactly when an effective decision names it, and a candidate is effective
exactly when its id is not superseded. -/
structure Solution (candidates : List ResolutionDecision) (effective : Set ResolutionDecision)
    (superseded : Set Uuid) : Prop where
  superseded_iff : ∀ x, x ∈ superseded ↔ ∃ d ∈ effective, d.supersedesDecisionId = some x
  effective_iff : ∀ d, d ∈ effective ↔ d ∈ candidates ∧ d.decisionId ∉ superseded

theorem Solution.settled {candidates : List ResolutionDecision} {effective : Set ResolutionDecision}
    {superseded : Set Uuid} (solution : Solution candidates effective superseded) :
    Settled (Supersedes candidates) superseded := by
  intro x
  rw [solution.superseded_iff]
  constructor
  · rintro ⟨d, member, names⟩
    have standing := (solution.effective_iff d).mp member
    exact ⟨d.decisionId, ⟨d, standing.1, rfl, names⟩, standing.2⟩
  · rintro ⟨y, ⟨d, candidate, rfl, names⟩, standing⟩
    exact ⟨d, (solution.effective_iff d).mpr ⟨candidate, standing⟩, names⟩

theorem mem_nextSuperseded {candidates : List ResolutionDecision} {superseded : Finset Uuid} {x : Uuid} :
    x ∈ nextSuperseded (effectiveAmong candidates superseded) ↔
      ∃ d ∈ effectiveAmong candidates superseded, d.supersedesDecisionId = some x := by
  simp [nextSuperseded]

theorem mem_effectiveAmong {candidates : List ResolutionDecision} {superseded : Finset Uuid}
    {d : ResolutionDecision} :
    d ∈ effectiveAmong candidates superseded ↔ d ∈ candidates ∧ d.decisionId ∉ superseded := by
  simp [effectiveAmong]

/-- One pass of the loop is one pass over the graph. -/
theorem nextSuperseded_passes {candidates : List ResolutionDecision} {superseded : Finset Uuid}
    {n : Nat} (here : (superseded : Set Uuid) = passes (Supersedes candidates) n) :
    (nextSuperseded (effectiveAmong candidates superseded) : Set Uuid) =
      passes (Supersedes candidates) (n + 1) := by
  ext x
  show x ∈ nextSuperseded _ ↔ ∃ y, Supersedes candidates y x ∧ y ∉ passes (Supersedes candidates) n
  rw [← here, mem_nextSuperseded]
  constructor
  · rintro ⟨d, member, names⟩
    have standing := mem_effectiveAmong.mp member
    exact ⟨d.decisionId, ⟨d, standing.1, rfl, names⟩, standing.2⟩
  · rintro ⟨y, ⟨d, candidate, rfl, names⟩, standing⟩
    exact ⟨d, mem_effectiveAmong.mpr ⟨candidate, standing⟩, names⟩

/-- Whatever the loop returns is a solution. -/
theorem settle_solution {candidates effective : List ResolutionDecision} {left : Nat}
    {superseded result : Finset Uuid}
    (returned : settle candidates left superseded = .ok (effective, result)) :
    effective = effectiveAmong candidates result ∧
      Solution candidates { d | d ∈ effective } (result : Set Uuid) := by
  induction left generalizing superseded with
  | zero => cases returned
  | succ left ih =>
    simp only [settle] at returned
    split at returned
    · rename_i fixed
      cases returned
      refine ⟨rfl, ?_, fun d => mem_effectiveAmong⟩
      intro x
      conv_lhs => rw [← fixed]
      exact mem_nextSuperseded
    · exact ih returned

/-- The loop returns once the passes it has left reach one that changes nothing. -/
theorem settle_returns {candidates : List ResolutionDecision} {left n stable : Nat}
    {superseded : Finset Uuid} (here : (superseded : Set Uuid) = passes (Supersedes candidates) n)
    (fixed : passes (Supersedes candidates) (stable + 1) = passes (Supersedes candidates) stable)
    (reached : n ≤ stable) (enough : stable < n + left) :
    ∃ result, settle candidates left superseded = .ok result := by
  induction left generalizing n superseded with
  | zero => omega
  | succ left ih =>
    simp only [settle]
    split
    · exact ⟨_, rfl⟩
    · rename_i changed
      have further : n ≠ stable := by
        rintro rfl
        apply changed
        apply Finset.coe_injective
        rw [nextSuperseded_passes here, fixed, here]
      exact ih (nextSuperseded_passes here) (by omega) (by omega)

/-- A loop that returns has come to a pass that changes nothing. -/
theorem settle_passes {candidates : List ResolutionDecision} {left n : Nat}
    {superseded : Finset Uuid} {result : List ResolutionDecision × Finset Uuid}
    (here : (superseded : Set Uuid) = passes (Supersedes candidates) n)
    (returned : settle candidates left superseded = .ok result) :
    ∃ stable, passes (Supersedes candidates) (stable + 1) = passes (Supersedes candidates) stable := by
  induction left generalizing n superseded with
  | zero => cases returned
  | succ left ih =>
    simp only [settle] at returned
    split at returned
    · rename_i fixed
      refine ⟨n, ?_⟩
      rw [← nextSuperseded_passes here, fixed, here]
    · exact ih (nextSuperseded_passes here) returned

/-- On a graph without cycles the passes suffice, and the result is the only solution. -/
theorem supersession_settles (decisions : List ResolutionDecision)
    (acyclic : ∀ x, ¬ TransGen (Supersedes (latestDecisions decisions)) x x) :
    ∃ effective superseded, effectiveDecisions decisions = .ok (effective, superseded) ∧
      Solution (latestDecisions decisions) { d | d ∈ effective } (superseded : Set Uuid) ∧
      ∀ E S, Solution (latestDecisions decisions) E S →
        E = { d | d ∈ effective } ∧ S = (superseded : Set Uuid) := by
  let candidates := latestDecisions decisions
  let ids := (candidates.map fun d => d.decisionId).toFinset
  have known : ∀ y x, Supersedes candidates y x → y ∈ ids := by
    rintro y x ⟨d, member, rfl, _⟩
    exact List.mem_toFinset.mpr (List.mem_map_of_mem member)
  have count : ids.card ≤ candidates.length := by
    simpa using List.toFinset_card_le (candidates.map fun d => d.decisionId)
  have returns : ∃ result, settle candidates (candidates.length + 1) ∅ = .ok result := by
    apply settle_returns (n := 0) _ (passes_card known acyclic) (Nat.zero_le _) (by omega)
    simp [passes]
  obtain ⟨⟨effective, superseded⟩, returned⟩ := returns
  obtain ⟨_, solution⟩ := settle_solution returned
  refine ⟨effective, superseded, returned, solution, fun E S other => ?_⟩
  have same : S = (superseded : Set Uuid) := other.settled.unique known acyclic solution.settled
  refine ⟨Set.ext fun d => ?_, same⟩
  rw [other.effective_iff, solution.effective_iff, same]

namespace Sample

/-- A UUIDv7. -/
def entity (n : Nat) : Uuid := 0x018f0000000070008000000000000000 + n

/-- A block that the second decision lifts and the third restores; the fourth names an id that
no decision has. -/
def block : ResolutionDecision where
  decisionId := 1
  decisionVersion := 1
  action := .manualBlock
  memberEntityIds := [entity 1, entity 3]
  canonicalGroupId := none
  score := none
  effectiveAt := 1
  recordedAt := 1
  supersedesDecisionId := none
  versionPositive := Int.one_pos
  membersNonempty := by decide
  scoreInRange := by simp
  shape := by decide

def cancel (id supersedes : Uuid) (other : supersedes ≠ id) : ResolutionDecision where
  decisionId := id
  decisionVersion := 1
  action := .reject
  memberEntityIds := [entity 1]
  canonicalGroupId := none
  score := none
  effectiveAt := 2
  recordedAt := 2
  supersedesDecisionId := some supersedes
  versionPositive := Int.one_pos
  membersNonempty := by decide
  scoreInRange := by simp
  shape := by simp [shapeByAction, ResolutionAction.groups, ensure, other, bind, Except.bind]

theorem first_ne_second : (1 : Uuid) ≠ 2 := by decide

def chain : List ResolutionDecision :=
  [block, cancel 2 1 first_ne_second, cancel 3 2 (by decide), cancel 4 0 (by decide)]

end Sample

theorem supersession_settles_chain :
    ∃ effective superseded, effectiveDecisions Sample.chain = .ok (effective, superseded) ∧
      Solution (latestDecisions Sample.chain) { d | d ∈ effective } (superseded : Set Uuid) ∧
      ∀ E S, Solution (latestDecisions Sample.chain) E S →
        E = { d | d ∈ effective } ∧ S = (superseded : Set Uuid) := by
  apply supersession_settles
  have descends : ∀ y x, Supersedes (latestDecisions Sample.chain) y x → x < y := by
    have each : ∀ d ∈ latestDecisions Sample.chain, ∀ x ∈ d.supersedesDecisionId, x < d.decisionId := by
      decide
    rintro y x ⟨d, member, rfl, names⟩
    exact each d member x names
  have below : ∀ y x, TransGen (Supersedes (latestDecisions Sample.chain)) y x → x < y := by
    intro y x path
    induction path with
    | single edge => exact descends _ _ edge
    | tail _ edge ih => exact (descends _ _ edge).trans ih
  exact fun x cycle => lt_irrefl x (below x x cycle)

example : (effectiveDecisions Sample.chain).toOption.map
    (fun result => sortedSet id Function.injective_id result.2) = some [0, 2] := by
  decide

end Collector.Contracts
