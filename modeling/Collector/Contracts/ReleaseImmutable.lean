import Collector.Contracts.ReleaseFields

/-!
Published releases over whole runs. An accepted update keeps the dump of every field but the two
that may move; equal dumps are the same bytes wherever the reports of the two manifests do not hold
one number written in two ways.
-/

namespace Collector.Contracts
open Collector.Lib
open Collector.Persistence (utf8)

section Update
variable {F : Type} {value : F → ℚ} {dumpDatetime : Int → Option Int → String}
  {previous candidate : ReleaseManifest F}

theorem ReleaseManifest.fields_keys (manifest : ReleaseManifest F) :
    (manifest.fields.map Prod.fst).Nodup := by
  have names : ["schema_version", "release_id", "tag", "state", "created_at", "published_at", "owner",
    "purpose", "watermark", "entity_versions", "partition_index_sha256", "source_registry_version",
    "included_sources", "excluded_sources", "degraded_sources", "versions", "git_commit",
    "image_digests", "config_hash", "build_command", "parts", "quality_report",
    "quality_report_artifact", "reconciliation_result", "reconciliation_result_artifact",
    "previous_release_id", "superseding_release_id"].Nodup := by decide
  exact names

/-- A field that is not reported as changed has equal dumps. -/
theorem pyEq_of_notMem_changed {key : String} {v w : Value F} (here : (key, v) ∈ previous.fields)
    (there : (key, w) ∈ candidate.fields)
    (unchanged : key ∉ changedFields value dumpDatetime previous candidate) :
    pyEq value (dumpJson dumpDatetime v) (dumpJson dumpDatetime w) = true := by
  have keys : ((candidate.dump dumpDatetime).map Prod.fst).Nodup := by
    simpa [ReleaseManifest.dump, dumpEntries_eq, List.map_map, Function.comp_def] using
      candidate.fields_keys
  have after : (key, dumpJson dumpDatetime w) ∈ candidate.dump dumpDatetime := by
    rw [ReleaseManifest.dump, dumpEntries_eq]
    exact List.mem_map.mpr ⟨_, there, rfl⟩
  have before : (key, dumpJson dumpDatetime v) ∈ previous.dump dumpDatetime := by
    rw [ReleaseManifest.dump, dumpEntries_eq]
    exact List.mem_map.mpr ⟨_, here, rfl⟩
  have lookup := find?_key keys after
  by_contra different
  refine unchanged ((mem_sortedBy _).mpr (List.mem_map.mpr ⟨_, List.mem_filter.mpr ⟨before, ?_⟩, rfl⟩))
  dsimp only at lookup ⊢
  rw [lookup]
  simpa using different

/-- An accepted update of a published or superseded manifest leaves the other fields unchanged. -/
theorem notMem_changed_of_accepted (immutable : previous.state ∈ immutableStates)
    (accepted : validateManifestUpdate value dumpDatetime previous candidate = .ok ())
    {key : String} (fixed : key ∉ mutableAfterPublish) :
    key ∉ changedFields value dumpDatetime previous candidate := by
  intro changed
  simp only [validateManifestUpdate, Except.bind_eq_ok, ensure_eq_ok, immutable, not_true_eq_false,
    if_false] at accepted
  obtain ⟨_, _, legal⟩ := accepted
  split at legal
  · rw [List.isEmpty_iff, List.filter_eq_nil_iff] at legal
    exact legal key changed (by simpa using fixed)
  · rw [List.isEmpty_iff, List.filter_eq_nil_iff] at legal
    refine legal key changed ?_
    have other : key ≠ "superseding_release_id" := by
      rintro rfl
      exact fixed (by decide)
    split <;> simp [other]

/-- `published_at` is set exactly for published and superseded manifests. -/
theorem consistent_publishedAt (valid : candidate.consistent = .ok ()) :
    candidate.state ∈ immutableStates ↔ candidate.publishedAt.isSome = true := by
  simp only [ReleaseManifest.consistent, Except.bind_eq_ok] at valid
  obtain ⟨_, _, _, _, _, _, _, _, _, published, _⟩ := valid
  unfold ReleaseManifest.publication at published
  split at published
  · rename_i immutable
    simp only [ensure_eq_ok, ReleaseManifest.missing, List.isEmpty_iff, List.map_eq_nil_iff,
      List.filter_eq_nil_iff] at published
    have set := published ("published_at", _) List.mem_cons_self
    simp only [Bool.not_eq_true', Bool.not_eq_false] at set
    exact ⟨fun _ => set, fun _ => immutable⟩
  · rename_i other
    have unset : candidate.publishedAt = none := by simpa using published
    simp [other, unset]

/-- A valid candidate of an accepted update is published or superseded again. -/
theorem immutable_of_accepted (immutable : previous.state ∈ immutableStates)
    (valid : previous.consistent = .ok ()) (valid' : candidate.consistent = .ok ())
    (accepted : validateManifestUpdate value dumpDatetime previous candidate = .ok ()) :
    candidate.state ∈ immutableStates := by
  rw [consistent_publishedAt valid']
  have set := (consistent_publishedAt valid).mp immutable
  have here : ("published_at", optional utc previous.publishedAt) ∈ previous.fields := by
    simp [ReleaseManifest.fields]
  have there : ("published_at", optional utc candidate.publishedAt) ∈ candidate.fields := by
    simp [ReleaseManifest.fields]
  have equal := pyEq_of_notMem_changed here there
    (notMem_changed_of_accepted immutable accepted (by decide))
  obtain ⟨t, some_t⟩ := Option.isSome_iff_exists.mp set
  cases unset : candidate.publishedAt with
  | some _ => rfl
  | none => simp [some_t, unset, optional, utc, dumpJson, pyEq] at equal

end Update

section Runs
variable {F : Type} (value : F → ℚ) (dumpDatetime : Int → Option Int → String)
  (rebuild : ReleaseManifest F → ReleaseState → List (String × Value F) →
    Except ReleaseError (ReleaseManifest F))

/-- A step of a release: a transition, or a valid manifest accepted in place of the previous one.
What is proposed to a step may be restricted by `fits`. -/
inductive ReleaseStep (fits : ReleaseManifest F → ReleaseManifest F → Prop) :
    ReleaseManifest F → ReleaseManifest F → Prop
  | transition {previous next : ReleaseManifest F} (target : ReleaseState)
      (changes : List (String × Value F))
      (proposed : ∀ candidate, rebuild previous target changes = .ok candidate →
        fits previous candidate)
      (done : transitionRelease value dumpDatetime rebuild previous target changes = .ok next) :
      ReleaseStep fits previous next
  | update {previous candidate : ReleaseManifest F} (valid : candidate.consistent = .ok ())
      (proposed : fits previous candidate)
      (accepted : validateManifestUpdate value dumpDatetime previous candidate = .ok ()) :
      ReleaseStep fits previous candidate

variable {value dumpDatetime rebuild} {fits : ReleaseManifest F → ReleaseManifest F → Prop}

theorem transitionRelease_eq_ok {manifest next : ReleaseManifest F} {target : ReleaseState}
    {changes : List (String × Value F)} :
    transitionRelease value dumpDatetime rebuild manifest target changes = .ok next ↔
      (∀ key ∈ reservedTransitionKeys, key ∉ changes.map Prod.fst) ∧
      target ∈ releaseTransitions manifest.state ∧ rebuild manifest target changes = .ok next ∧
      next.consistent = .ok () ∧
      validateManifestUpdate value dumpDatetime manifest next = .ok () := by
  have reserved : (sortedBy id (reservedTransitionKeys.filter fun key =>
      decide (key ∈ changes.map Prod.fst))).isEmpty = true ↔
      ∀ key ∈ reservedTransitionKeys, key ∉ changes.map Prod.fst := by
    simp only [List.isEmpty_iff, List.eq_nil_iff_forall_not_mem, mem_sortedBy, List.mem_filter,
      decide_eq_true_eq, not_and]
  simp only [transitionRelease, canTransition, Except.bind_eq_ok, ensure_eq_ok, pure, Except.pure,
    Except.ok.injEq, reserved, decide_eq_true_eq]
  constructor
  · rintro ⟨_, allowed, _, possible, candidate, rebuilt, _, valid, _, accepted, rfl⟩
    exact ⟨allowed, possible, rebuilt, valid, accepted⟩
  · rintro ⟨allowed, possible, rebuilt, valid, accepted⟩
    exact ⟨(), allowed, (), possible, next, rebuilt, (), valid, (), accepted, rfl⟩

/-- Either way a step leads to a valid manifest that fits and that the update check accepts. -/
theorem ReleaseStep.accepted {previous next : ReleaseManifest F}
    (step : ReleaseStep value dumpDatetime rebuild fits previous next) :
    next.consistent = .ok () ∧ fits previous next ∧
      validateManifestUpdate value dumpDatetime previous next = .ok () := by
  cases step with
  | update valid proposed accepted => exact ⟨valid, proposed, accepted⟩
  | transition target changes proposed done =>
    obtain ⟨_, _, rebuilt, valid, accepted⟩ := transitionRelease_eq_ok.mp done
    exact ⟨valid, proposed _ rebuilt, accepted⟩

/-- A step keeps the bytes of the fixed fields and leads to a published or superseded manifest. -/
theorem ReleaseStep.keeps (floats : FloatText F) (nfc : String → String)
    (injective : ∀ s t, dumpDatetime s (some 0) = dumpDatetime t (some 0) → s = t)
    {previous next : ReleaseManifest F}
    (step : ReleaseStep value dumpDatetime rebuild (NumbersKept value) previous next)
    (valid : previous.consistent = .ok ()) (immutable : previous.state ∈ immutableStates) :
    next.consistent = .ok () ∧ next.state ∈ immutableStates ∧
      ∀ key w, key ∉ mutableAfterPublish → (key, w) ∈ next.fields →
        ∃ v, (key, v) ∈ previous.fields ∧ SameBytes floats nfc v w := by
  obtain ⟨valid', kept, accepted⟩ := step.accepted
  refine ⟨valid', immutable_of_accepted immutable valid valid' accepted, ?_⟩
  intro key w fixed there
  obtain ⟨⟨_, v⟩, here, rfl, faithful⟩ :=
    forall₂_of_mem_right (ReleaseManifest.fields_faithful nfc injective kept) there
  have unchanged := notMem_changed_of_accepted immutable accepted fixed
  exact ⟨v, here, (faithful (pyEq_of_notMem_changed here there unchanged)).sameBytes⟩

/-- **Published releases are immutable to the byte** over every run whose proposals write no number
of the reports in another way: every field but the two that may move keeps its bytes. -/
theorem published_bytes_kept (floats : FloatText F) (nfc : String → String)
    (injective : ∀ s t, dumpDatetime s (some 0) = dumpDatetime t (some 0) → s = t)
    {start later : ReleaseManifest F} (valid : start.consistent = .ok ())
    (published : start.state = .published)
    (run : Relation.ReflTransGen (ReleaseStep value dumpDatetime rebuild (NumbersKept value))
      start later)
    {key : String} (fixed : key ∉ mutableAfterPublish) {v w : Value F}
    (here : (key, v) ∈ start.fields) (there : (key, w) ∈ later.fields) :
    SameBytes floats nfc v w := by
  have kept : later.consistent = .ok () ∧ later.state ∈ immutableStates ∧
      ∀ w, (key, w) ∈ later.fields → SameBytes floats nfc v w := by
    clear there w
    induction run with
    | refl =>
      refine ⟨valid, by rw [published]; decide, fun w there => ?_⟩
      have same := List.inj_on_of_nodup_map start.fields_keys here there rfl
      rw [(Prod.mk.inj same).2]
      exact .refl w
    | @tail middle next _ step ih =>
      obtain ⟨valid, immutable, before⟩ := ih
      obtain ⟨valid', immutable', fields⟩ := step.keeps floats nfc injective valid immutable
      refine ⟨valid', immutable', fun w there => ?_⟩
      obtain ⟨u, between, same⟩ := fields key w fixed there
      exact (before u between).trans same
  exact kept.2.2 w there

end Runs

section Sample

def sampleNumber : SampleFloat → ℚ
  | .zero | .negativeZero => 0
  | .half => 1 / 2
  | .one => 1

def sampleInstant : UtcDatetime := 1790000000000000

/-- Pydantic's text of one instant; the other instants stand as their number. -/
def sampleDump (wall : Int) (_ : Option Int) : String :=
  if wall = sampleInstant then "2026-09-21T14:13:20Z" else .ofList ('#' :: JsonText.intText wall)

theorem sampleDump_injective (s t : Int) (same : sampleDump s (some 0) = sampleDump t (some 0)) :
    s = t := by
  have unlike : ∀ chars, "2026-09-21T14:13:20Z" ≠ String.ofList ('#' :: chars) := by
    intro chars equal
    have lists := congrArg String.toList equal
    rw [String.toList_ofList] at lists
    exact absurd (congrArg List.head? lists) (by simp)
  unfold sampleDump at same
  split at same <;> split at same
  · simp_all
  · exact absurd same (unlike _)
  · exact absurd same.symm (unlike _)
  · have digits := List.tail_eq_of_cons_eq (String.ofList_injective same)
    rw [← JsonText.readInt_intText s, digits, JsonText.readInt_intText]

/-- Pydantic on the one change of the transition below. -/
def sampleRebuild (manifest : ReleaseManifest SampleFloat) (target : ReleaseState)
    (changes : List (String × Value SampleFloat)) :
    Except ReleaseError (ReleaseManifest SampleFloat) :=
  .ok { manifest with
    state := target
    supersedingReleaseId := match changes with
      | [("superseding_release_id", .uuid id)] => some id
      | _ => manifest.supersedingReleaseId }

def sampleHash : String := "e3b0c44298fc1c149afbf4c8996fb92427ae41e4649b934ca495991b7852b855"

/-- The report of how many rows were rejected. -/
def rejectedReport (count : Json SampleFloat) (scalar : count.Distinct) : JsonObject SampleFloat where
  entries := [("rejected", count)]
  distinct := .obj (by simp) (by simpa using scalar)

def publishedSample (report : JsonObject SampleFloat) : ReleaseManifest SampleFloat where
  schemaVersion := "1.0"
  releaseId := 1
  tag := "2026.09"
  state := .published
  createdAt := sampleInstant
  publishedAt := some sampleInstant
  owner := "data"
  purpose := "monthly"
  watermark := ⟨sampleInstant, "0/16B3748", none, none⟩
  entityVersions := none
  partitionIndexSha256 := some sampleHash
  sourceRegistryVersion := "1"
  includedSources := [⟨"dou", "1", none⟩]
  excludedSources := []
  degradedSources := []
  versions := ⟨"1.0", "1", "1", "1", "1", none, none, none⟩
  gitCommit := "0123abc"
  imageDigests := ⟨[("collector", sampleHash)], by simp⟩
  configHash := sampleHash
  buildCommand := "collector release build"
  parts := [⟨"s3://releases/part-0", "parquet", ⟨[("year", "2026")], by simp⟩, 10, none, none, none,
    none, 100, sampleHash⟩]
  qualityReport := some report
  qualityReportArtifact := none
  reconciliationResult := none
  reconciliationResultArtifact := some ⟨"s3://releases/reconciliation", sampleHash, 100,
    "application/json", none⟩
  previousReleaseId := none
  supersedingReleaseId := none

theorem published_bytes_kept_superseded :
    ∃ later, Relation.ReflTransGen
        (ReleaseStep sampleNumber sampleDump sampleRebuild (NumbersKept sampleNumber))
        (publishedSample (rejectedReport (.int 1) (.int 1))) later ∧ later.state = .superseded ∧
      ∀ v w, ("quality_report", v) ∈ (publishedSample (rejectedReport (.int 1) (.int 1))).fields →
        ("quality_report", w) ∈ later.fields → SameBytes sampleFloats composeAcute v w := by
  let start := publishedSample (rejectedReport (.int 1) (.int 1))
  let later : ReleaseManifest SampleFloat :=
    { start with state := .superseded, supersedingReleaseId := some 2 }
  have encoded : canonicalJsonBytes sampleFloats composeAcute
      (ofJson (rejectedReport (.int 1) (.int 1)).json) = .ok (utf8 "\x7b\"rejected\":1\x7d") := by
    decide +kernel
  have step : ReleaseStep sampleNumber sampleDump sampleRebuild (NumbersKept sampleNumber)
      start later := by
    refine .transition .superseded [("superseding_release_id", .uuid 2)] ?_ ?_
    · rintro _ ⟨⟩
      refine ⟨?_, by rintro _ ⟨⟩⟩
      rintro _ ⟨⟩ _ ⟨⟩
      exact not_clash_of_bytes encoded encoded
    · have valid : later.consistent = .ok () := by decide +kernel
      have accepted : validateManifestUpdate sampleNumber sampleDump start later = .ok () := by
        decide +kernel
      exact transitionRelease_eq_ok.mpr ⟨by decide, by decide, rfl, valid, accepted⟩
  refine ⟨later, .single step, rfl, fun v w here there => ?_⟩
  exact published_bytes_kept sampleFloats composeAcute sampleDump_injective (by decide +kernel) rfl
    (.single step) (by decide) here there

theorem published_report_changes_bytes :
    ¬ ∀ start later : ReleaseManifest SampleFloat, start.consistent = .ok () →
      start.state = .published →
      Relation.ReflTransGen (ReleaseStep sampleNumber sampleDump sampleRebuild fun _ _ => True)
        start later →
      ∀ key v w, key ∉ mutableAfterPublish → (key, v) ∈ start.fields → (key, w) ∈ later.fields →
        SameBytes sampleFloats composeAcute v w := by
  intro immutable
  let start := publishedSample (rejectedReport (.int 1) (.int 1))
  let later := publishedSample (rejectedReport (.bool true) (.bool true))
  have step : ReleaseStep sampleNumber sampleDump sampleRebuild (fun _ _ => True) start later :=
    .update (by decide +kernel) trivial (by decide +kernel)
  have here : ("quality_report", ofJson (rejectedReport (.int 1) (.int 1)).json) ∈ start.fields := by
    simp [start, publishedSample, ReleaseManifest.fields, optional]
  have there : ("quality_report", ofJson (rejectedReport (.bool true) (.bool true)).json) ∈
      later.fields := by
    simp [later, publishedSample, ReleaseManifest.fields, optional]
  have first : canonicalJsonBytes sampleFloats composeAcute
      (ofJson (rejectedReport (.int 1) (.int 1)).json) = .ok (utf8 "\x7b\"rejected\":1\x7d") := by
    decide +kernel
  have second : canonicalJsonBytes sampleFloats composeAcute
      (ofJson (rejectedReport (.bool true) (.bool true)).json) =
        .ok (utf8 "\x7b\"rejected\":true\x7d") := by
    decide +kernel
  have different : utf8 "\x7b\"rejected\":1\x7d" ≠ utf8 "\x7b\"rejected\":true\x7d" := by
    decide +kernel
  rcases immutable start later (by decide +kernel) rfl (.single step) _ _ _ (by decide) here there with
    ⟨bytes, one, two⟩ | ⟨_, _, one, _⟩
  · rw [first, Except.ok.injEq] at one
    rw [second, Except.ok.injEq] at two
    exact different (one.trans two.symm)
  · rw [first] at one
    cases one

end Sample
end Collector.Contracts
