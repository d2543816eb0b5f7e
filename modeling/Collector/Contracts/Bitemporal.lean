import Collector.Contracts.Temporal
import Mathlib.Data.Finset.Max

/-!
What a query with a moment on each axis is answered. The axes are closed independently, so a
version answers only while it is the latest of the whole list on both: a later version takes the
valid axis over from the moment of its `effective_at`, also for a reader who asks with the
knowledge of a time before it arrived.
-/

namespace Collector.Contracts
open Collector.Lib

theorem eq_of_projectionVersion_eq {versions : List VersionTimes} {u v : VersionTimes}
    (distinct : (versions.map VersionTimes.projectionVersion).Nodup) (here : u ∈ versions)
    (there : v ∈ versions) (same : u.projectionVersion = v.projectionVersion) : u = v :=
  List.inj_on_of_nodup_map distinct here there same

/-- A further version can only take the place of one that is earlier on the axis. -/
theorem latestAt_of_perm_cons {axis : VersionTimes → UtcDatetime} {versions added : List VersionTimes}
    {v w : VersionTimes} {moment : UtcDatetime} (perm : added.Perm (w :: versions)) :
    LatestAt axis added v moment ↔
      LatestAt axis versions v moment ∧ (axis w ≤ moment → axis w ≤ axis v) := by
  simp only [LatestAt, perm.mem_iff, List.mem_cons, forall_eq_or_imp]
  tauto

theorem mem_answering_iff {versions : List VersionTimes} {intervals : List VersionInterval}
    {a k : UtcDatetime} (spec : answering intervals a k =
      (latestVersions versions a k).map VersionTimes.projectionVersion) {n : Int} :
    n ∈ answering intervals a k ↔ ∃ v ∈ versions, v.projectionVersion = n ∧
      LatestAt VersionTimes.effectiveAt versions v a ∧
      LatestAt VersionTimes.ingestedAt versions v k := by
  rw [spec, List.mem_map]
  simp only [mem_latestVersions]
  tauto

/-- A version that arrives after moment `k` leaves what was known at `k` as it was, but for the
versions whose valid interval it closes: those that take effect before it, from its
`effective_at` on. -/
theorem late_version_closes_only_valid_axis {versions added : List VersionTimes} {w : VersionTimes}
    (perm : added.Perm (w :: versions))
    (distinct : (added.map VersionTimes.projectionVersion).Nodup) :
    ∃ older newer, buildIntervals versions = .ok older ∧ buildIntervals added = .ok newer ∧
      ∀ a k, k < w.ingestedAt → ∀ n, n ∈ answering newer a k ↔
        n ∈ answering older a k ∧ ¬ ∃ v ∈ versions, v.projectionVersion = n ∧
          v.effectiveAt < w.effectiveAt ∧ w.effectiveAt ≤ a := by
  have apart := (perm.map VersionTimes.projectionVersion).nodup_iff.mp distinct
  have distinctOlder := (List.nodup_cons.mp apart).2
  obtain ⟨older, builtOlder, answersOlder⟩ := buildIntervals_spec distinctOlder
  obtain ⟨newer, builtNewer, answersNewer⟩ := buildIntervals_spec distinct
  refine ⟨older, newer, builtOlder, builtNewer, fun a k early n => ?_⟩
  rw [mem_answering_iff (answersNewer a k), mem_answering_iff (answersOlder a k)]
  constructor
  · rintro ⟨v, member, rfl, valid, known⟩
    have old : v ∈ versions := by
      rcases List.mem_cons.mp (perm.mem_iff.mp member) with rfl | old
      · exact absurd known.1 (not_le.mpr early)
      · exact old
    have reduced := (latestAt_of_perm_cons perm).mp valid
    refine ⟨⟨v, old, rfl, reduced.1, ((latestAt_of_perm_cons perm).mp known).1⟩, ?_⟩
    rintro ⟨u, here, same, below, reached⟩
    rw [eq_of_projectionVersion_eq distinctOlder here old same] at below
    exact absurd (reduced.2 reached) (not_le.mpr below)
  · rintro ⟨⟨v, old, rfl, valid, known⟩, kept⟩
    refine ⟨v, perm.mem_iff.mpr (List.mem_cons_of_mem _ old), rfl, ?_, ?_⟩
    · apply (latestAt_of_perm_cons perm).mpr ⟨valid, fun reached => ?_⟩
      by_contra below
      exact kept ⟨v, old, rfl, not_le.mp below, reached⟩
    · apply (latestAt_of_perm_cons perm).mpr ⟨known, fun reached => ?_⟩
      exact absurd reached (not_le.mpr early)

namespace Sample

def first : VersionTimes := ⟨1, 0, 10, by decide⟩
def second : VersionTimes := ⟨2, 20, 30, by decide⟩
def backdated : VersionTimes := ⟨3, 10, 50, by decide⟩

end Sample

theorem late_version_closes_only_valid_axis_backdated :
    ∃ older newer, buildIntervals [Sample.first, Sample.second] = .ok older ∧
      buildIntervals [Sample.first, Sample.second, Sample.backdated] = .ok newer ∧
      ∀ a k, k < 50 → ∀ n, n ∈ answering newer a k ↔
        n ∈ answering older a k ∧ ¬ ∃ v ∈ [Sample.first, Sample.second], v.projectionVersion = n ∧
          v.effectiveAt < 10 ∧ 10 ≤ a :=
  late_version_closes_only_valid_axis (w := Sample.backdated) (by decide) (by decide)

/-- At `k = 10` the first version was the only one known and answers at every later moment; once
the second is there the same question, asked for the time it takes effect, has no answer. -/
theorem late_version_empties_past_answer :
    (∀ v ∈ [Sample.first], v.ingestedAt < Sample.second.ingestedAt) ∧
      10 < Sample.second.ingestedAt ∧
      (buildIntervals [Sample.first]).map (fun older => answering older 20 10) = .ok [1] ∧
      (buildIntervals [Sample.first, Sample.second]).map (fun newer => answering newer 20 10) =
        .ok [] := by
  decide

/-- Among the versions known at `k`, `v` is the one with the latest `effective_at` up to `a`. -/
def KnownLatest (versions : List VersionTimes) (v : VersionTimes) (a k : UtcDatetime) : Prop :=
  v.ingestedAt ≤ k ∧
    LatestAt VersionTimes.effectiveAt (versions.filter fun n => decide (n.ingestedAt ≤ k)) v a

theorem exists_knownLatest {versions : List VersionTimes} {u : VersionTimes} {a k : UtcDatetime}
    (member : u ∈ versions) (effective : u.effectiveAt ≤ a) (ingested : u.ingestedAt ≤ k) :
    ∃ v ∈ versions, KnownLatest versions v a k := by
  have candidate : u ∈ (versions.filter fun n =>
      decide (n.effectiveAt ≤ a ∧ n.ingestedAt ≤ k)).toFinset := by
    simp [member, effective, ingested]
  obtain ⟨v, found, highest⟩ := Finset.exists_max_image _ VersionTimes.effectiveAt ⟨u, candidate⟩
  simp only [List.mem_toFinset, List.mem_filter, decide_eq_true_eq] at found highest
  refine ⟨v, found.1, found.2.2, found.2.1, fun n known reached => ?_⟩
  simp only [List.mem_filter, decide_eq_true_eq] at known
  exact highest n ⟨known.1, reached, known.2⟩

theorem KnownLatest.eq_of_latestAt {versions : List VersionTimes} {u v : VersionTimes}
    {a k : UtcDatetime} (named : KnownLatest versions v a k)
    (distinct : (versions.map VersionTimes.effectiveAt).Nodup) (here : u ∈ versions)
    (there : v ∈ versions) (valid : LatestAt VersionTimes.effectiveAt versions u a)
    (known : u.ingestedAt ≤ k) : u = v := by
  apply List.inj_on_of_nodup_map distinct here there
  apply le_antisymm
  · apply named.2.2 u _ valid.1
    simp [here, known]
  · exact valid.2 v there named.2.1

/-- At most one version answers, the one with the latest `effective_at` among those known; it
does so exactly when it is the latest of the whole list on each axis. -/
theorem bitemporal_answer {versions : List VersionTimes}
    (distinct : (versions.map VersionTimes.projectionVersion).Nodup)
    (effective : (versions.map VersionTimes.effectiveAt).Nodup)
    {a k : UtcDatetime} (asked : ∃ u ∈ versions, u.effectiveAt ≤ a ∧ u.ingestedAt ≤ k) :
    ∃ intervals, buildIntervals versions = .ok intervals ∧
      ∃ v ∈ versions, KnownLatest versions v a k ∧ answering intervals a k =
        if LatestAt VersionTimes.effectiveAt versions v a ∧
          LatestAt VersionTimes.ingestedAt versions v k then [v.projectionVersion] else [] := by
  obtain ⟨intervals, built, answers⟩ := buildIntervals_spec distinct
  obtain ⟨u, known, reached, ingested⟩ := asked
  obtain ⟨v, member, named⟩ := exists_knownLatest known reached ingested
  refine ⟨intervals, built, v, member, named, ?_⟩
  have only : ∀ n ∈ latestVersions versions a k, n = v := by
    intro n answering
    obtain ⟨here, valid, known⟩ := mem_latestVersions.mp answering
    exact named.eq_of_latestAt effective here member valid known.1
  have once : (latestVersions versions a k).Nodup := by
    apply List.Nodup.filter
    apply (sortedBy_perm _ versions).nodup_iff.mpr
    exact List.Nodup.of_map _ distinct
  rw [answers a k]
  split
  · rename_i latest
    have single : latestVersions versions a k = [v] := by
      apply List.perm_singleton.mp
      rw [List.perm_ext_iff_of_nodup once (List.nodup_singleton v)]
      intro n
      rw [List.mem_singleton]
      constructor
      · exact only n
      · rintro rfl
        exact mem_latestVersions.mpr ⟨member, latest⟩
    rw [single, List.map_singleton]
  · rename_i latest
    have none : latestVersions versions a k = [] := by
      apply List.eq_nil_iff_forall_not_mem.mpr
      intro n answering
      cases only n answering
      exact latest (mem_latestVersions.mp answering).2
    rw [none, List.map_nil]

theorem bitemporal_answer_backdated :
    ∃ intervals, buildIntervals [Sample.first, Sample.second, Sample.backdated] = .ok intervals ∧
      ∃ v ∈ [Sample.first, Sample.second, Sample.backdated],
        KnownLatest [Sample.first, Sample.second, Sample.backdated] v 20 30 ∧
        answering intervals 20 30 =
          if LatestAt VersionTimes.effectiveAt [Sample.first, Sample.second, Sample.backdated] v 20 ∧
            LatestAt VersionTimes.ingestedAt [Sample.first, Sample.second, Sample.backdated] v 30
          then [v.projectionVersion] else [] :=
  bitemporal_answer (by decide) (by decide) (by decide)

/-- The first version is in force at moment 0 and known at 30, and no interval says so: the known
axis closed it when the second arrived. -/
theorem earlier_version_unanswered_after_later :
    ([Sample.first, Sample.second].map VersionTimes.effectiveAt).Nodup ∧
      ([Sample.first, Sample.second].map VersionTimes.ingestedAt).Nodup ∧
      Sample.first.effectiveAt ≤ 0 ∧ Sample.first.ingestedAt ≤ 30 ∧
      (buildIntervals [Sample.first, Sample.second]).map (fun built => answering built 0 30) =
        .ok [] := by
  decide

end Collector.Contracts
