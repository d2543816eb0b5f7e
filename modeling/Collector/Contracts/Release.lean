import Collector.Contracts.Dump
import Collector.Contracts.Temporal
import Collector.Lib.Machine

/-!
Dataset releases. A manifest goes from draft over building and validating to published, and from
there to superseded only; `validate_manifest_update` compares the dumps of two manifests field by
field. The checks that pydantic makes on single fields and on the records inside a manifest are left
to it; the manifest's own validator is `consistent`.
-/

namespace Collector.Contracts
open Collector.Lib

inductive ReleaseState where
  | draft
  | building
  | validating
  | published
  | failed
  | superseded
  deriving DecidableEq, Repr

def ReleaseState.value : ReleaseState → String
  | .draft => "draft"
  | .building => "building"
  | .validating => "validating"
  | .published => "published"
  | .failed => "failed"
  | .superseded => "superseded"

/-- `RELEASE_TRANSITIONS`. -/
def releaseTransitions : ReleaseState → List ReleaseState
  | .draft => [.building, .failed]
  | .building => [.validating, .failed]
  | .validating => [.published, .failed]
  | .published => [.superseded]
  | .failed => []
  | .superseded => []

def mutableAfterPublish : List String := ["state", "superseding_release_id"]

def immutableStates : List ReleaseState := [.published, .superseded]

def reservedTransitionKeys : List String := ["state", "release_id"]

inductive ReleaseError where
  /-- Pydantic's `ValidationError`. -/
  | validation (message : String)
  /-- `ReleaseTransitionError`. -/
  | transition (message : String)
  deriving DecidableEq, Repr

/-- A Python dict from strings to strings. -/
structure StrDict where
  entries : List (String × String)
  keys : (entries.map Prod.fst).Nodup

/-- A Python dict of strict JSON. -/
structure JsonObject (F : Type) where
  entries : List (String × Json F)
  distinct : (Json.obj entries).Distinct

structure EntityVersionRef where
  entityUuid : Persistence.Uuid
  projectionVersion : Int

structure ReleaseWatermark where
  snapshotAt : UtcDatetime
  postgresSnapshot : String
  mongoClusterTime : Option String
  resolutionSnapshotId : Option Persistence.Uuid

structure SourceInclusion where
  sourceId : String
  policyVersion : String
  reason : Option String

structure ComponentVersions where
  schemaVersion : String
  parserVersion : String
  normalizerVersion : String
  matcherVersion : String
  resolutionVersion : String
  translationProvider : Option String
  translationModelVersion : Option String
  glossaryVersion : Option String

structure ReleasePart where
  uri : String
  format : String
  partition : StrDict
  rowCount : Int
  minEffectiveAt : Option UtcDatetime
  maxEffectiveAt : Option UtcDatetime
  minSystemAt : Option UtcDatetime
  maxSystemAt : Option UtcDatetime
  sizeBytes : Int
  sha256 : String

structure ArtifactRef where
  uri : String
  sha256 : String
  sizeBytes : Int
  mediaType : String
  schemaVersion : Option String

structure ReleaseManifest (F : Type) where
  schemaVersion : String
  releaseId : Persistence.Uuid
  tag : String
  state : ReleaseState
  createdAt : UtcDatetime
  publishedAt : Option UtcDatetime
  owner : String
  purpose : String
  watermark : ReleaseWatermark
  entityVersions : Option (List EntityVersionRef)
  partitionIndexSha256 : Option String
  sourceRegistryVersion : String
  includedSources : List SourceInclusion
  excludedSources : List SourceInclusion
  degradedSources : List SourceInclusion
  versions : ComponentVersions
  gitCommit : String
  imageDigests : StrDict
  configHash : String
  buildCommand : String
  parts : List ReleasePart
  qualityReport : Option (JsonObject F)
  qualityReportArtifact : Option ArtifactRef
  reconciliationResult : Option (JsonObject F)
  reconciliationResultArtifact : Option ArtifactRef
  previousReleaseId : Option Persistence.Uuid
  supersedingReleaseId : Option Persistence.Uuid

section Values
variable {F : Type}

/-- An aware UTC datetime. -/
def utc (t : UtcDatetime) : Value F := .datetime t (some 0)

def StrDict.json (dict : StrDict) : Json F := .obj (dict.entries.map fun (key, s) => (key, .str s))

def JsonObject.json (object : JsonObject F) : Json F := .obj object.entries

def EntityVersionRef.value (ref : EntityVersionRef) : Value F := .mapping [
  ("entity_uuid", .uuid ref.entityUuid),
  ("projection_version", .int ref.projectionVersion)]

def ReleaseWatermark.value (watermark : ReleaseWatermark) : Value F := .mapping [
  ("snapshot_at", utc watermark.snapshotAt),
  ("postgres_snapshot", .str watermark.postgresSnapshot),
  ("mongo_cluster_time", optional .str watermark.mongoClusterTime),
  ("resolution_snapshot_id", optional .uuid watermark.resolutionSnapshotId)]

def SourceInclusion.value (inclusion : SourceInclusion) : Value F := .mapping [
  ("source_id", .str inclusion.sourceId),
  ("policy_version", .str inclusion.policyVersion),
  ("reason", optional .str inclusion.reason)]

def ComponentVersions.value (versions : ComponentVersions) : Value F := .mapping [
  ("schema_version", .str versions.schemaVersion),
  ("parser_version", .str versions.parserVersion),
  ("normalizer_version", .str versions.normalizerVersion),
  ("matcher_version", .str versions.matcherVersion),
  ("resolution_version", .str versions.resolutionVersion),
  ("translation_provider", optional .str versions.translationProvider),
  ("translation_model_version", optional .str versions.translationModelVersion),
  ("glossary_version", optional .str versions.glossaryVersion)]

def ReleasePart.value (part : ReleasePart) : Value F := .mapping [
  ("uri", .str part.uri),
  ("format", .str part.format),
  ("partition", ofJson part.partition.json),
  ("row_count", .int part.rowCount),
  ("min_effective_at", optional utc part.minEffectiveAt),
  ("max_effective_at", optional utc part.maxEffectiveAt),
  ("min_system_at", optional utc part.minSystemAt),
  ("max_system_at", optional utc part.maxSystemAt),
  ("size_bytes", .int part.sizeBytes),
  ("sha256", .str part.sha256)]

def ArtifactRef.value (ref : ArtifactRef) : Value F := .mapping [
  ("uri", .str ref.uri),
  ("sha256", .str ref.sha256),
  ("size_bytes", .int ref.sizeBytes),
  ("media_type", .str ref.mediaType),
  ("schema_version", optional .str ref.schemaVersion)]

/-- The fields of a manifest under their names. -/
def ReleaseManifest.fields (manifest : ReleaseManifest F) : List (String × Value F) := [
  ("schema_version", .str manifest.schemaVersion),
  ("release_id", .uuid manifest.releaseId),
  ("tag", .str manifest.tag),
  ("state", .str manifest.state.value),
  ("created_at", utc manifest.createdAt),
  ("published_at", optional utc manifest.publishedAt),
  ("owner", .str manifest.owner),
  ("purpose", .str manifest.purpose),
  ("watermark", manifest.watermark.value),
  ("entity_versions", optional (fun refs => .list (refs.map EntityVersionRef.value))
    manifest.entityVersions),
  ("partition_index_sha256", optional .str manifest.partitionIndexSha256),
  ("source_registry_version", .str manifest.sourceRegistryVersion),
  ("included_sources", .list (manifest.includedSources.map SourceInclusion.value)),
  ("excluded_sources", .list (manifest.excludedSources.map SourceInclusion.value)),
  ("degraded_sources", .list (manifest.degradedSources.map SourceInclusion.value)),
  ("versions", manifest.versions.value),
  ("git_commit", .str manifest.gitCommit),
  ("image_digests", ofJson manifest.imageDigests.json),
  ("config_hash", .str manifest.configHash),
  ("build_command", .str manifest.buildCommand),
  ("parts", .list (manifest.parts.map ReleasePart.value)),
  ("quality_report", optional (fun report => ofJson report.json) manifest.qualityReport),
  ("quality_report_artifact", optional ArtifactRef.value manifest.qualityReportArtifact),
  ("reconciliation_result", optional (fun report => ofJson report.json)
    manifest.reconciliationResult),
  ("reconciliation_result_artifact", optional ArtifactRef.value
    manifest.reconciliationResultArtifact),
  ("previous_release_id", optional .uuid manifest.previousReleaseId),
  ("superseding_release_id", optional .uuid manifest.supersedingReleaseId)]

end Values

section Validator
variable {F : Type}

/-- `inline or artifact` is truthy; an empty report is not. -/
def reported (inline : Option (JsonObject F)) (artifact : Option ArtifactRef) : Bool :=
  inline.any (fun report => !report.entries.isEmpty) || artifact.isSome

/-- What a published release has to have, by name. -/
def ReleaseManifest.missing (manifest : ReleaseManifest F) : List String :=
  ([("published_at", manifest.publishedAt.isSome), ("parts", !manifest.parts.isEmpty),
    ("quality_report", reported manifest.qualityReport manifest.qualityReportArtifact),
    ("reconciliation_result",
      reported manifest.reconciliationResult manifest.reconciliationResultArtifact)].filter
    fun (_, present) => !present).map Prod.fst

/-- Every excluded or degraded source has a reason that is not empty. -/
def ReleaseManifest.explained (manifest : ReleaseManifest F) : Except ReleaseError Unit :=
  match (manifest.excludedSources ++ manifest.degradedSources).find? fun inclusion =>
    inclusion.reason = none ∨ inclusion.reason = some "" with
  | some inclusion =>
    throw (.validation ("excluded/degraded source " ++ inclusion.sourceId ++ " потребує reason"))
  | none => return ()

/-- A report is given inline or as an artifact, not both. -/
def exclusive (name : String) (inline : Option (JsonObject F)) (artifact : Option ArtifactRef) :
    Except ReleaseError Unit :=
  ensure (!(inline.isSome && artifact.isSome))
    (.validation (name ++ ": задайте або inline, або " ++ name ++ "_artifact, не обидва (CR-05)"))

/-- What goes with the state. -/
def ReleaseManifest.publication (manifest : ReleaseManifest F) : Except ReleaseError Unit :=
  if manifest.state ∈ immutableStates then
    ensure manifest.missing.isEmpty (.validation (manifest.state.value ++ " release потребує: " ++
      ", ".intercalate manifest.missing))
  else
    ensure manifest.publishedAt.isNone
      (.validation "published_at дозволений лише для published/superseded")

/-- `_consistent`. -/
def ReleaseManifest.consistent (manifest : ReleaseManifest F) : Except ReleaseError Unit := do
  ensure (manifest.entityVersions.isNone != manifest.partitionIndexSha256.isNone)
    (.validation "рівно одне з entity_versions / partition_index_sha256 має бути задане")
  manifest.explained
  exclusive "quality_report" manifest.qualityReport manifest.qualityReportArtifact
  exclusive "reconciliation_result" manifest.reconciliationResult
    manifest.reconciliationResultArtifact
  manifest.publication
  ensure (decide (manifest.state ≠ .superseded) || manifest.supersedingReleaseId.isSome)
    (.validation "superseded release потребує superseding_release_id")
  ensure (decide (manifest.state = .superseded) || manifest.supersedingReleaseId.isNone)
    (.validation "superseding_release_id дозволений лише для superseded")
  ensure (decide (manifest.supersedingReleaseId ≠ some manifest.releaseId))
    (.validation "release не може supersede сам себе")

end Validator

section Update
variable {F : Type} (value : F → ℚ) (dumpDatetime : Int → Option Int → String)

def canTransition (current target : ReleaseState) : Bool := decide (target ∈ releaseTransitions current)

/-- A list of names as Python prints it. -/
def pyNames (names : List String) : String :=
  "[" ++ ", ".intercalate (names.map fun name => "'" ++ name ++ "'") ++ "]"

/-- `model_dump(mode="json")`. -/
def ReleaseManifest.dump (manifest : ReleaseManifest F) : List (String × Json F) :=
  dumpEntries dumpDatetime manifest.fields

/-- The names of the fields that differ. -/
def changedFields (previous candidate : ReleaseManifest F) : List String :=
  sortedBy id (((previous.dump dumpDatetime).filter fun (key, before) =>
    match (candidate.dump dumpDatetime).find? fun after => after.1 = key with
    | some after => !pyEq value before after.2
    | none => !pyEq value before .null).map Prod.fst)

def validateManifestUpdate (previous candidate : ReleaseManifest F) : Except ReleaseError Unit := do
  ensure (decide (previous.releaseId = candidate.releaseId)) (.transition "release_id не змінюється")
  if previous.state ∉ immutableStates then
    return ()
  let changed := changedFields value dumpDatetime previous candidate
  let illegal :=
    if previous.state = .published then changed.filter fun key => key ∉ mutableAfterPublish
    else
      let allowedLink :=
        if previous.supersedingReleaseId = none then some "superseding_release_id" else none
      changed.filter fun key => some key ≠ allowedLink
  ensure illegal.isEmpty
    (.transition (previous.state.value ++ " release immutable: змінені поля " ++ pyNames illegal))

/-- `transition_release`. What pydantic makes of `manifest.model_copy(update=…)`, dumped and
validated field by field, is a parameter; the manifest's own validator runs on its result. -/
def transitionRelease
    (rebuild : ReleaseManifest F → ReleaseState → List (String × Value F) →
      Except ReleaseError (ReleaseManifest F))
    (manifest : ReleaseManifest F) (target : ReleaseState) (changes : List (String × Value F)) :
    Except ReleaseError (ReleaseManifest F) := do
  let reserved := sortedBy id (reservedTransitionKeys.filter fun key => key ∈ changes.map Prod.fst)
  ensure reserved.isEmpty (.transition ("changes не може містити " ++ pyNames reserved ++
    ": стан задає лише target, release_id незмінний"))
  ensure (canTransition manifest.state target) (.transition ("перехід " ++ manifest.state.value ++
    " → " ++ target.value ++ " не дозволений"))
  let candidate ← rebuild manifest target changes
  candidate.consistent
  validateManifestUpdate value dumpDatetime manifest candidate
  return candidate

end Update
end Collector.Contracts
