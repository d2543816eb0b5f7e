import Collector.Contracts.ReleaseImmutable

/-!
The states of a release under accepted updates. The update check lets `state` move freely; what
keeps a published release from going back is that `published_at` stays and that the validator ties
it, and the link to the superseding release, to the state.
-/

namespace Collector.Contracts
open Collector.Lib

section UuidText

theorem digitChar_injective {m n : Nat} (here : m < 16) (there : n < 16)
    (same : Nat.digitChar m = Nat.digitChar n) : m = n := by
  have table : ∀ m < 16, ∀ n < 16, Nat.digitChar m = Nat.digitChar n → m = n := by decide
  exact table m here n there same

theorem digitChar_ne_dash {n : Nat} (small : n < 16) : Nat.digitChar n ≠ '-' := by
  have table : ∀ n < 16, Nat.digitChar n ≠ '-' := by decide
  exact table n small

/-- The hexadecimal digits of an id, without the dashes. -/
theorem uuidText_digits (id : Persistence.Uuid) :
    (uuidText id).toList.filter (fun c => decide (c ≠ '-')) =
      (List.range 32).map fun i => Nat.digitChar (id / 16 ^ (31 - i) % 16) := by
  rw [uuidText, String.toList_ofList, List.filter_flatMap, List.map_eq_flatMap]
  apply List.flatMap_congr
  intro i _
  have digit := digitChar_ne_dash (Nat.mod_lt (id / 16 ^ (31 - i)) (by decide : 0 < 16))
  dsimp only
  split
  · simp [digit]
  · simp [digit]

theorem mod_pow_eq_of_digits {base m n count : Nat}
    (same : ∀ k < count, m / base ^ k % base = n / base ^ k % base) :
    m % base ^ count = n % base ^ count := by
  induction count with
  | zero => rw [pow_zero, Nat.mod_one, Nat.mod_one]
  | succ count ih =>
    rw [Nat.mod_pow_succ, Nat.mod_pow_succ, same count (Nat.lt_succ_self count),
      ih fun k below => same k (Nat.lt_succ_of_lt below)]

/-- Different 128-bit values have different texts. -/
theorem uuidText_injective {i j : Persistence.Uuid} (here : i < 2 ^ 128) (there : j < 2 ^ 128)
    (same : uuidText i = uuidText j) : i = j := by
  have digits := uuidText_digits i
  rw [same, uuidText_digits j] at digits
  have agree : ∀ k < 32, i / 16 ^ k % 16 = j / 16 ^ k % 16 := by
    intro k below
    have place := List.map_inj_left.mp digits (31 - k) (List.mem_range.mpr (by omega))
    rw [show 31 - (31 - k) = k by omega] at place
    exact digitChar_injective (Nat.mod_lt _ (by decide)) (Nat.mod_lt _ (by decide)) place.symm
  have whole := mod_pow_eq_of_digits agree
  rw [show (16 : Nat) ^ 32 = 2 ^ 128 by decide] at whole
  rwa [Nat.mod_eq_of_lt here, Nat.mod_eq_of_lt there] at whole

end UuidText

section Update
variable {F : Type} {value : F → ℚ} {dumpDatetime : Int → Option Int → String}
  {previous candidate : ReleaseManifest F}

/-- The link is set exactly for superseded manifests, and not to the release itself. -/
theorem consistent_superseding (valid : candidate.consistent = .ok ()) :
    (candidate.state = .superseded ↔ candidate.supersedingReleaseId.isSome = true) ∧
      candidate.supersedingReleaseId ≠ some candidate.releaseId := by
  simp only [ReleaseManifest.consistent, Except.bind_eq_ok, ensure_eq_ok] at valid
  obtain ⟨_, _, _, _, _, _, _, _, _, _, _, needed, _, allowed, other⟩ := valid
  simp only [Bool.or_eq_true, decide_eq_true_eq, Option.isNone_iff_eq_none] at needed allowed other
  refine ⟨⟨fun superseded => ?_, fun linked => ?_⟩, other⟩
  · exact needed.resolve_left fun different => different superseded
  · rcases allowed with superseded | none
    · exact superseded
    · rw [none] at linked
      cases linked

/-- An accepted update of a superseded manifest changes nothing. -/
theorem notMem_changed_of_superseded (superseded : previous.state = .superseded)
    (valid : previous.consistent = .ok ())
    (accepted : validateManifestUpdate value dumpDatetime previous candidate = .ok ())
    (key : String) : key ∉ changedFields value dumpDatetime previous candidate := by
  intro changed
  have linked := (consistent_superseding valid).1.mp superseded
  have immutable : previous.state ∈ immutableStates := by
    rw [superseded]
    decide
  have notPublished : previous.state ≠ .published := by
    rw [superseded]
    decide
  have link : previous.supersedingReleaseId ≠ none := Option.isSome_iff_ne_none.mp linked
  simp only [validateManifestUpdate, Except.bind_eq_ok, ensure_eq_ok, immutable, not_true_eq_false,
    if_false, notPublished, link] at accepted
  obtain ⟨_, _, legal⟩ := accepted
  rw [List.isEmpty_iff, List.filter_eq_nil_iff] at legal
  exact legal key changed (by simp)

theorem state_eq_of_unchanged
    (unchanged : "state" ∉ changedFields value dumpDatetime previous candidate) :
    previous.state = candidate.state := by
  have here : ("state", Value.str previous.state.value) ∈ previous.fields := by
    simp [ReleaseManifest.fields]
  have there : ("state", Value.str candidate.state.value) ∈ candidate.fields := by
    simp [ReleaseManifest.fields]
  have equal := pyEq_of_notMem_changed here there unchanged
  rw [dumpJson, dumpJson, pyEq, decide_eq_true_eq] at equal
  have table : ∀ s t : ReleaseState, s.value = t.value → s = t := by
    intro s t
    cases s <;> cases t <;> decide
  exact table _ _ equal

/-- The ids of a manifest are 128-bit values. -/
def ReleaseManifest.linkFits (manifest : ReleaseManifest F) : Prop :=
  ∀ id ∈ manifest.supersedingReleaseId, id < 2 ^ 128

theorem link_eq_of_unchanged (here : previous.linkFits) (there : candidate.linkFits)
    (unchanged : "superseding_release_id" ∉ changedFields value dumpDatetime previous candidate) :
    previous.supersedingReleaseId = candidate.supersedingReleaseId := by
  have first : ("superseding_release_id", optional Value.uuid previous.supersedingReleaseId) ∈
      previous.fields := by simp [ReleaseManifest.fields]
  have second : ("superseding_release_id", optional Value.uuid candidate.supersedingReleaseId) ∈
      candidate.fields := by simp [ReleaseManifest.fields]
  have equal := pyEq_of_notMem_changed first second unchanged
  unfold ReleaseManifest.linkFits at here there
  cases before : previous.supersedingReleaseId with
  | none =>
    cases after : candidate.supersedingReleaseId with
    | none => rfl
    | some id => simp [before, after, optional, dumpJson, pyEq] at equal
  | some id =>
    cases after : candidate.supersedingReleaseId with
    | none => simp [before, after, optional, dumpJson, pyEq] at equal
    | some other =>
      simp only [before, after, optional, dumpJson, pyEq, decide_eq_true_eq] at equal
      rw [uuidText_injective (here id before) (there other after) equal]

variable {rebuild : ReleaseManifest F → ReleaseState → List (String × Value F) →
  Except ReleaseError (ReleaseManifest F)}

/-- Whatever updates are accepted, a published or superseded release stays one of the two. -/
theorem immutable_of_run {fits : ReleaseManifest F → ReleaseManifest F → Prop}
    {start later : ReleaseManifest F} (valid : start.consistent = .ok ())
    (immutable : start.state ∈ immutableStates)
    (run : Relation.ReflTransGen (ReleaseStep value dumpDatetime rebuild fits) start later) :
    later.consistent = .ok () ∧ later.state ∈ immutableStates := by
  induction run with
  | refl => exact ⟨valid, immutable⟩
  | tail _ step ih =>
    obtain ⟨valid', _, accepted⟩ := step.accepted
    exact ⟨valid', immutable_of_accepted ih.2 ih.1 valid' accepted⟩

/-- **No way back from published.** -/
theorem no_way_back_from_published (valid : previous.consistent = .ok ())
    (valid' : candidate.consistent = .ok ())
    (accepted : validateManifestUpdate value dumpDatetime previous candidate = .ok ()) :
    (previous.state = .published → candidate.state = .published ∨
      candidate.state = .superseded ∧
        ∃ id, candidate.supersedingReleaseId = some id ∧ id ≠ candidate.releaseId) ∧
    (previous.state = .superseded → previous.linkFits → candidate.linkFits →
      candidate.state = .superseded ∧
        candidate.supersedingReleaseId = previous.supersedingReleaseId) ∧
    ∀ later, previous.state ∈ immutableStates →
      Relation.ReflTransGen (ReleaseStep value dumpDatetime rebuild fun _ _ => True) previous later →
      later.state = .published ∨ later.state = .superseded := by
  have two : ∀ state : ReleaseState, state ∈ immutableStates →
      state = .published ∨ state = .superseded := by
    intro state member
    simpa [immutableStates] using member
  refine ⟨fun published => ?_, fun superseded here there => ?_, fun later immutable run => ?_⟩
  · have immutable : previous.state ∈ immutableStates := by
      rw [published]
      decide
    have linked := consistent_superseding valid'
    rcases two _ (immutable_of_accepted immutable valid valid' accepted) with still | superseded
    · exact .inl still
    · obtain ⟨id, link⟩ := Option.isSome_iff_exists.mp (linked.1.mp superseded)
      refine .inr ⟨superseded, id, link, ?_⟩
      rintro rfl
      exact linked.2 link
  · have unchanged := notMem_changed_of_superseded superseded valid accepted
    exact ⟨(state_eq_of_unchanged (unchanged "state")).symm.trans superseded,
      (link_eq_of_unchanged here there (unchanged "superseding_release_id")).symm⟩
  · exact two _ (immutable_of_run valid immutable run).2

/-- A published release, and the same after another one took its place. -/
def releaseBefore : ReleaseManifest SampleFloat := publishedSample (rejectedReport (.int 1) (.int 1))

def releaseAfter : ReleaseManifest SampleFloat :=
  { releaseBefore with state := .superseded, supersedingReleaseId := some 2 }

theorem no_way_back_from_published_superseded :
    (releaseBefore.state = .published → releaseAfter.state = .published ∨
      releaseAfter.state = .superseded ∧
        ∃ id, releaseAfter.supersedingReleaseId = some id ∧ id ≠ releaseAfter.releaseId) ∧
    (releaseBefore.state = .superseded → releaseBefore.linkFits → releaseAfter.linkFits →
      releaseAfter.state = .superseded ∧
        releaseAfter.supersedingReleaseId = releaseBefore.supersedingReleaseId) ∧
    ∀ later, releaseBefore.state ∈ immutableStates →
      Relation.ReflTransGen (ReleaseStep sampleNumber sampleDump sampleRebuild fun _ _ => True)
        releaseBefore later →
      later.state = .published ∨ later.state = .superseded :=
  no_way_back_from_published (by decide +kernel) (by decide +kernel) (by decide +kernel)

end Update
end Collector.Contracts
