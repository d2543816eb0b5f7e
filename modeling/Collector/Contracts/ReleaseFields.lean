import Collector.Contracts.Release

/-!
The fields of two manifests side by side. Where the inline reports hold no number written in two
ways, every field is written alike once its dumps are equal.
-/

namespace Collector.Contracts
open Collector.Lib

section Fields
variable {F : Type} {value : F → ℚ} {dumpDatetime : Int → Option Int → String} {nfc : String → String}

theorem StrDict.distinct (dict : StrDict) : (dict.json : Json F).Distinct := by
  refine .obj ?_ fun entry member => ?_
  · simpa [List.map_map, Function.comp_def] using dict.keys
  · obtain ⟨old, _, rfl⟩ := List.mem_map.mp member
    exact .str _

theorem StrDict.faithful (x y : StrDict) :
    Faithful value dumpDatetime nfc (ofJson x.json) (ofJson y.json) := by
  refine .json x.distinct y.distinct fun clash => ?_
  cases clash with
  | number left => simp [StrDict.json, numeric] at left
  | entry left _ clash =>
    obtain ⟨old, _, same⟩ := List.mem_map.mp left
    cases same
    cases clash with
    | number left => simp [numeric] at left

private theorem faithful_optional_str (x y : Option String) :
    Faithful value dumpDatetime nfc (optional .str x) (optional .str y) :=
  .optional (fun _ _ _ _ => .str _ _) fun _ => by simp [dumpJson]

private theorem faithful_optional_uuid (x y : Option Persistence.Uuid) :
    Faithful value dumpDatetime nfc (optional .uuid x) (optional .uuid y) :=
  .optional (fun _ _ _ _ => .uuid _ _) fun _ => by simp [dumpJson]

theorem EntityVersionRef.faithful (x y : EntityVersionRef) :
    Faithful value dumpDatetime nfc x.value y.value := by
  refine .record (by simp) (.cons ⟨rfl, .uuid _ _⟩ (.cons ⟨rfl, .int _ _⟩ .nil))

theorem SourceInclusion.faithful (x y : SourceInclusion) :
    Faithful value dumpDatetime nfc x.value y.value := by
  refine .record (by simp) (.cons ⟨rfl, .str _ _⟩ (.cons ⟨rfl, .str _ _⟩
    (.cons ⟨rfl, faithful_optional_str _ _⟩ .nil)))

theorem ComponentVersions.faithful (x y : ComponentVersions) :
    Faithful value dumpDatetime nfc x.value y.value := by
  refine .record (by simp) ?_
  simp only [List.forall₂_cons, List.Forall₂.nil, Faithful.str, faithful_optional_str, and_self]

theorem ArtifactRef.faithful (x y : ArtifactRef) :
    Faithful value dumpDatetime nfc x.value y.value := by
  refine .record (by simp) ?_
  simp only [List.forall₂_cons, List.Forall₂.nil, Faithful.str, Faithful.int, faithful_optional_str,
    and_self]

section Datetimes
variable (injective : ∀ s t, dumpDatetime s (some 0) = dumpDatetime t (some 0) → s = t)
include injective

private theorem faithful_utc (s t : UtcDatetime) :
    Faithful value dumpDatetime nfc (utc s) (utc t) := .datetime injective s t

private theorem faithful_optional_utc (x y : Option UtcDatetime) :
    Faithful value dumpDatetime nfc (optional utc x) (optional utc y) :=
  .optional (fun _ _ _ _ => faithful_utc injective _ _) fun _ => by simp [utc, dumpJson]

theorem ReleaseWatermark.faithful (x y : ReleaseWatermark) :
    Faithful value dumpDatetime nfc x.value y.value := by
  refine .record (by simp) ?_
  simp only [List.forall₂_cons, List.Forall₂.nil, Faithful.str, faithful_optional_str,
    faithful_optional_uuid, faithful_utc injective, and_self]

theorem ReleasePart.faithful (x y : ReleasePart) :
    Faithful value dumpDatetime nfc x.value y.value := by
  refine .record (by simp) ?_
  simp only [List.forall₂_cons, List.Forall₂.nil, Faithful.str, Faithful.int, StrDict.faithful,
    faithful_optional_utc injective, and_self]

end Datetimes

/-- No place of two reports holds one number written in two ways. -/
def ReportsApart (value : F → ℚ) (x y : Option (JsonObject F)) : Prop :=
  ∀ report ∈ x, ∀ report' ∈ y, ¬ Clash value report.json report'.json

theorem ReportsApart.faithful {x y : Option (JsonObject F)} (apart : ReportsApart value x y) :
    Faithful value dumpDatetime nfc (optional (fun report => ofJson report.json) x)
      (optional (fun report => ofJson report.json) y) := by
  refine .optional (fun report known report' known' => ?_) fun report => ?_
  · exact .json report.distinct report'.distinct (apart report known report' known')
  · simp [dumpJson_ofJson, JsonObject.json]

/-- The inline reports of two manifests hold no number written in two ways. -/
def NumbersKept (value : F → ℚ) (previous candidate : ReleaseManifest F) : Prop :=
  ReportsApart value previous.qualityReport candidate.qualityReport ∧
    ReportsApart value previous.reconciliationResult candidate.reconciliationResult

theorem ReleaseManifest.fields_faithful (nfc : String → String)
    (injective : ∀ s t, dumpDatetime s (some 0) = dumpDatetime t (some 0) → s = t)
    {previous candidate : ReleaseManifest F} (kept : NumbersKept value previous candidate) :
    List.Forall₂ (fun entry other => entry.1 = other.1 ∧
      Faithful value dumpDatetime nfc entry.2 other.2) previous.fields candidate.fields := by
  have refs : ∀ x y : Option (List EntityVersionRef), Faithful value dumpDatetime nfc
      (optional (fun refs => .list (refs.map EntityVersionRef.value)) x)
      (optional (fun refs => .list (refs.map EntityVersionRef.value)) y) :=
    fun _ _ => .optional (fun _ _ _ _ => .list EntityVersionRef.faithful _ _)
      fun _ => by simp [dumpJson]
  have artifacts : ∀ x y : Option ArtifactRef, Faithful value dumpDatetime nfc
      (optional ArtifactRef.value x) (optional ArtifactRef.value y) :=
    fun _ _ => .optional (fun _ _ _ _ => ArtifactRef.faithful _ _)
      fun _ => by simp [ArtifactRef.value, dumpJson]
  have parts : ∀ x y : List ReleasePart, Faithful value dumpDatetime nfc
      (.list (x.map ReleasePart.value)) (.list (y.map ReleasePart.value)) :=
    .list (ReleasePart.faithful injective)
  have sources : ∀ x y : List SourceInclusion, Faithful value dumpDatetime nfc
      (.list (x.map SourceInclusion.value)) (.list (y.map SourceInclusion.value)) :=
    .list SourceInclusion.faithful
  simp only [ReleaseManifest.fields, List.forall₂_cons, List.Forall₂.nil, Faithful.str, Faithful.uuid,
    faithful_optional_str, faithful_optional_uuid, faithful_utc injective,
    faithful_optional_utc injective, ReleaseWatermark.faithful injective,
    ComponentVersions.faithful, StrDict.faithful, refs, artifacts, parts, sources,
    kept.1.faithful, kept.2.faithful, and_self]

end Fields

end Collector.Contracts
