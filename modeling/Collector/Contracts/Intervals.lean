import Collector.Contracts.Bitemporal
import Collector.Lib.Pairing

/-!
`build_intervals` against what its axes mean. Each axis of a version ends with the least later
value among all versions, the order of the input and ties have no say in it, and two versions
share a moment exactly when they agree on both times.
-/

namespace Collector.Contracts
open Collector.Lib

/-- The values of the axis that are strictly later than the one of `v`. -/
def laterValues (axis : VersionTimes → UtcDatetime) (versions : List VersionTimes)
    (v : VersionTimes) : Set UtcDatetime :=
  { t | ∃ n ∈ versions, axis n = t ∧ axis v < t }

/-- The least later value, or none where there is none. -/
structure IsNextLater (axis : VersionTimes → UtcDatetime) (versions : List VersionTimes)
    (v : VersionTimes) (next : Option UtcDatetime) : Prop where
  some : ∀ t, next = some t ↔ IsLeast (laterValues axis versions v) t
  none : next = none ↔ laterValues axis versions v = ∅

theorem Bounds.isNextLater {axis : VersionTimes → UtcDatetime} {versions : List VersionTimes}
    {v : VersionTimes} {next : Option UtcDatetime} (bounds : Bounds axis versions v next) :
    IsNextLater axis versions v next := by
  cases next with
  | none =>
    have empty : laterValues axis versions v = ∅ := by
      rw [Set.eq_empty_iff_forall_notMem]
      rintro t ⟨n, member, rfl, later⟩
      exact lt_irrefl _ ((bounds (axis n)).mp rfl n member later)
    refine ⟨fun t => ?_, iff_of_true rfl empty⟩
    rw [empty]
    exact iff_of_false (by rintro ⟨⟩) fun least => least.1
  | some next =>
    have earlier : ∀ t, t < next ↔ ∀ n ∈ versions, axis v < axis n → t < axis n := by
      intro t
      rw [← bounds t, before, decide_eq_true_eq]
    have lower : next ∈ lowerBounds (laterValues axis versions v) := by
      rintro t ⟨n, member, rfl, later⟩
      by_contra below
      exact lt_irrefl _ ((earlier (axis n)).mp (not_le.mp below) n member later)
    have least : IsLeast (laterValues axis versions v) next := by
      refine ⟨?_, lower⟩
      have reached : ¬ ∀ n ∈ versions, axis v < axis n → next < axis n := by
        rw [← earlier]
        exact lt_irrefl next
      push Not at reached
      obtain ⟨n, member, later, within⟩ := reached
      have same : axis n = next := le_antisymm within (lower ⟨n, member, rfl, later⟩)
      exact ⟨n, member, same, same ▸ later⟩
    refine ⟨fun t => ?_, iff_of_false (by rintro ⟨⟩) ?_⟩
    · rw [Option.some.injEq]
      constructor
      · rintro rfl
        exact least
      · exact least.unique
    · exact Set.Nonempty.ne_empty ⟨next, least.1⟩

/-- What the entry of a version says. -/
structure Meets (versions : List VersionTimes) (v : VersionTimes) (built : VersionInterval) :
    Prop where
  version : built.projectionVersion = v.projectionVersion
  validFrom : built.interval.validFrom = v.effectiveAt
  knownFrom : built.interval.knownFrom = v.ingestedAt
  validTo : IsNextLater VersionTimes.effectiveAt versions v built.interval.validTo
  knownTo : IsNextLater VersionTimes.ingestedAt versions v built.interval.knownTo
  contains : ∀ a k, built.interval.contains a k = true ↔
    LatestAt VersionTimes.effectiveAt versions v a ∧ LatestAt VersionTimes.ingestedAt versions v k

theorem buildInterval_meets {versions : List VersionTimes} {v : VersionTimes}
    (distinct : (versions.map VersionTimes.projectionVersion).Nodup) (member : v ∈ versions) :
    ∃ built, buildInterval (nextStrictlyLater versions VersionTimes.effectiveAt)
        (nextStrictlyLater versions VersionTimes.ingestedAt) v = .ok built ∧
      Meets versions v built := by
  obtain ⟨built, found, version, validFrom, knownFrom, valid, known⟩ :=
    buildInterval_eq distinct member
  obtain ⟨same, answer, _, contains⟩ := buildInterval_spec distinct member
  rw [found] at answer
  cases answer
  exact ⟨built, found, version, validFrom, knownFrom, valid.isNextLater, known.isNextLater, contains⟩

theorem nextStrictlyLater_of_perm {versions arranged : List VersionTimes}
    (perm : arranged.Perm versions)
    (distinct : (versions.map VersionTimes.projectionVersion).Nodup)
    (axis : VersionTimes → UtcDatetime) :
    nextStrictlyLater arranged axis = nextStrictlyLater versions axis := by
  unfold nextStrictlyLater
  rw [sortedBy_eq_of_perm _ perm]
  intro u here v there same
  have versionsAgree : u.projectionVersion = v.projectionVersion :=
    (Prod.ext_iff.mp (toLex.injective same)).2
  exact eq_of_projectionVersion_eq distinct (perm.subset here) (perm.subset there) versionsAgree

/-- The order of the input has no say. -/
theorem buildIntervals_of_perm {versions arranged : List VersionTimes}
    (perm : arranged.Perm versions)
    (distinct : (versions.map VersionTimes.projectionVersion).Nodup) :
    buildIntervals arranged = buildIntervals versions := by
  have sorted : sortedBy VersionTimes.projectionVersion arranged =
      sortedBy VersionTimes.projectionVersion versions := by
    apply sortedBy_eq_of_perm _ perm
    intro u here v there
    exact eq_of_projectionVersion_eq distinct (perm.subset here) (perm.subset there)
  have checked := (perm.map VersionTimes.projectionVersion).nodup_iff
  simp only [buildIntervals, nextStrictlyLater_of_perm perm distinct, sorted, checked]

/-- Two entries share a moment exactly when their versions agree on both times. -/
theorem Meets.overlap_iff {versions : List VersionTimes} {u v : VersionTimes}
    {b c : VersionInterval} (first : Meets versions u b) (second : Meets versions v c)
    (here : u ∈ versions) (there : v ∈ versions) :
    (∃ a k, b.interval.contains a k = true ∧ c.interval.contains a k = true) ↔
      u.effectiveAt = v.effectiveAt ∧ u.ingestedAt = v.ingestedAt := by
  simp only [first.contains, second.contains]
  constructor
  · rintro ⟨a, k, ⟨validU, knownU⟩, validV, knownV⟩
    exact ⟨le_antisymm (validV.2 u here validU.1) (validU.2 v there validV.1),
      le_antisymm (knownV.2 u here knownU.1) (knownU.2 v there knownV.1)⟩
  · rintro ⟨effective, ingested⟩
    refine ⟨u.effectiveAt, u.ingestedAt, ⟨⟨le_rfl, fun _ _ => id⟩, le_rfl, fun _ _ => id⟩, ?_⟩
    rw [effective, ingested]
    exact ⟨⟨le_rfl, fun _ _ => id⟩, le_rfl, fun _ _ => id⟩

/-- Versions with different numbers, in any order and with any ties: the entries are those of the
versions in the order of their numbers, each axis ends with the least later value of all versions,
and two entries share a moment exactly when their versions agree on both times. -/
theorem build_intervals_meets_axes {versions : List VersionTimes}
    (distinct : (versions.map VersionTimes.projectionVersion).Nodup) :
    ∃ intervals, (∀ arranged, arranged.Perm versions → buildIntervals arranged = .ok intervals) ∧
      intervals.length = versions.length ∧
      (intervals.map VersionInterval.projectionVersion).Pairwise (· < ·) ∧
      (∀ v ∈ versions, ∃ built ∈ intervals, Meets versions v built) ∧
      ∀ u ∈ versions, ∀ v ∈ versions, u ≠ v → ∀ b ∈ intervals, ∀ c ∈ intervals,
        b.projectionVersion = u.projectionVersion → c.projectionVersion = v.projectionVersion →
        ((∃ a k, b.interval.contains a k = true ∧ c.interval.contains a k = true) ↔
          u.effectiveAt = v.effectiveAt ∧ u.ingestedAt = v.ingestedAt) := by
  have perm := sortedBy_perm VersionTimes.projectionVersion versions
  have entry : ∀ v ∈ sortedBy VersionTimes.projectionVersion versions, ∃ built,
      buildInterval (nextStrictlyLater versions VersionTimes.effectiveAt)
        (nextStrictlyLater versions VersionTimes.ingestedAt) v = .ok built ∧
      Meets versions v built := fun v member =>
    buildInterval_meets distinct (perm.subset member)
  obtain ⟨intervals, built, each⟩ := Except.mapM_eq_ok entry
  have numbers : (sortedBy VersionTimes.projectionVersion versions).map
      VersionTimes.projectionVersion = intervals.map VersionInterval.projectionVersion := by
    rw [← List.forall₂_eq_eq_eq, List.forall₂_map_left_iff, List.forall₂_map_right_iff]
    exact each.imp fun v built meets => meets.version.symm
  have apart := (perm.map VersionTimes.projectionVersion).nodup_iff.mpr distinct
  refine ⟨intervals, fun arranged permuted => ?_, ?_, ?_, fun v member => ?_, ?_⟩
  · rw [buildIntervals_of_perm permuted distinct]
    simp only [buildIntervals, ensure, distinct, decide_true, if_true, bind, Except.bind]
    exact built
  · rw [← each.length_eq, perm.length_eq]
  · rw [← numbers]
    have climbing : ((sortedBy VersionTimes.projectionVersion versions).map
        VersionTimes.projectionVersion).Pairwise (· ≤ ·) :=
      List.pairwise_map.mpr (sortedBy_pairwise VersionTimes.projectionVersion versions)
    exact climbing.imp₂ (fun m n below different => lt_of_le_of_ne below different) apart
  · exact forall₂_of_mem_right each.flip (perm.mem_iff.mpr member)
  · intro u here v there _ b first c second sameU sameV
    obtain ⟨u', listedU, meetsU⟩ := forall₂_of_mem_right each first
    obtain ⟨v', listedV, meetsV⟩ := forall₂_of_mem_right each second
    have isU : u' = u := eq_of_projectionVersion_eq distinct (perm.subset listedU) here
      (meetsU.version.symm.trans sameU)
    have isV : v' = v := eq_of_projectionVersion_eq distinct (perm.subset listedV) there
      (meetsV.version.symm.trans sameV)
    subst isU
    subst isV
    exact meetsU.overlap_iff meetsV here there

theorem build_intervals_meets_axes_backdated :
    ∃ intervals, (∀ arranged, arranged.Perm [Sample.first, Sample.second, Sample.backdated] →
        buildIntervals arranged = .ok intervals) ∧
      intervals.length = [Sample.first, Sample.second, Sample.backdated].length ∧
      (intervals.map VersionInterval.projectionVersion).Pairwise (· < ·) ∧
      (∀ v ∈ [Sample.first, Sample.second, Sample.backdated], ∃ built ∈ intervals,
        Meets [Sample.first, Sample.second, Sample.backdated] v built) ∧
      ∀ u ∈ [Sample.first, Sample.second, Sample.backdated],
        ∀ v ∈ [Sample.first, Sample.second, Sample.backdated], u ≠ v →
        ∀ b ∈ intervals, ∀ c ∈ intervals,
        b.projectionVersion = u.projectionVersion → c.projectionVersion = v.projectionVersion →
        ((∃ a k, b.interval.contains a k = true ∧ c.interval.contains a k = true) ↔
          u.effectiveAt = v.effectiveAt ∧ u.ingestedAt = v.ingestedAt) :=
  build_intervals_meets_axes (by decide)

end Collector.Contracts
