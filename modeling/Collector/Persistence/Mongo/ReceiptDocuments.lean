import Collector.Contracts.Uuid7
import Collector.Lib.Bson
import Collector.Persistence.Projection.Contracts

/-!
Receipts as documents of `applied_projection_receipts`. A document carries the whole contract, so
the validators that the tables have no use for are here. Of the conversions that validation makes
between types none is modelled: a stored receipt needs none.
-/

namespace Collector.Persistence.Mongo
open Collector.Lib
open Projection (Codec ReceiptFields AppliedProjectionReceipt ArtifactRef isSchemaVersion)

/-- `parse_schema_version` of a text that has the pattern. -/
def parseSchemaVersion (text : String) : Nat × Nat :=
  (Nat.ofDigitChars 10 (text.toList.takeWhile (· != '.')) 0,
    Nat.ofDigitChars 10 ((text.toList.dropWhile (· != '.')).drop 1) 0)

/-- `_check_schema_version_compatible` with a contract of version 1.0. -/
def isCompatible (text : String) : Bool :=
  isSchemaVersion text && decide ((parseSchemaVersion text).1 = 1 ∧ (parseSchemaVersion text).2 ≤ 0)

/-- `^[a-z][a-z0-9+.-]*://.+`. -/
def isArtifactUri (text : String) : Bool :=
  match text.toList with
  | first :: rest => decide ('a' ≤ first ∧ first ≤ 'z') &&
      match rest.dropWhile fun c => decide ('a' ≤ c ∧ c ≤ 'z') || c.isDigit || c ∈ ['+', '.', '-'] with
      | ':' :: '/' :: '/' :: c :: _ => c != '\n'
      | _ => false
  | [] => false

section Contract
variable (word : Char → Bool)

/-- `[\w.+-]`, where `word` is `\w`. -/
def isToken (c : Char) : Bool := word c || c ∈ ['.', '+', '-']

/-- `^[\w.+-]+/[\w.+-]+(;.*)?$`. -/
def isMediaType (text : String) : Bool :=
  let type := text.toList.takeWhile (isToken word)
  !type.isEmpty && match text.toList.drop type.length with
    | '/' :: rest =>
      let subtype := rest.takeWhile (isToken word)
      !subtype.isEmpty && match rest.drop subtype.length with
        | [] => true
        | c :: parameters => c == ';' && parameters.all (· != '\n')
    | _ => false

/-- What the contract asks besides `ReceiptFields.valid`. -/
def contractValid (receipt : ReceiptFields) (schemaVersion : String)
    (artifactSchemaVersion : Option String) : Bool :=
  isCompatible schemaVersion && decide (Contracts.Uuid.version receipt.entityUuid = 7) &&
  receipt.eventArtifact.all (fun ref => isArtifactUri ref.uri && isMediaType word ref.mediaType) &&
  artifactSchemaVersion.all isSchemaVersion &&
  (receipt.eventArtifact.isSome || artifactSchemaVersion.isNone)

/-- An `AppliedProjectionReceipt` with all of its fields. -/
structure ReceiptModel (codec : Codec) extends AppliedProjectionReceipt codec where
  schemaVersion : String
  /-- `event_artifact.schema_version`. -/
  artifactSchemaVersion : Option String
  contract : contractValid word toReceiptFields schemaVersion artifactSchemaVersion = true

variable {word} {codec : Codec}

/-- The fields of an `ArtifactRef` under their names. -/
def artifactFields (schemaVersion : Option String) (ref : ArtifactRef) : Fields := [
  ("uri", .str ref.uri),
  ("sha256", .str ref.sha256),
  ("size_bytes", .int ref.sizeBytes),
  ("media_type", .str ref.mediaType),
  ("schema_version", .maybe .str schemaVersion)]

open Native (maybe) in
/-- `model_dump(mode="python")`. -/
def ReceiptModel.dump (receipt : ReceiptModel word codec) : Fields := [
  ("schema_version", .str receipt.schemaVersion),
  ("projection_task_id", .uuid receipt.projectionTaskId),
  ("entity_uuid", .uuid receipt.entityUuid),
  ("projection_version", .int receipt.projectionVersion),
  ("target_collection", .str receipt.targetCollection),
  ("document_id", .uuid receipt.documentId),
  ("applied_to_current", .bool receipt.appliedToCurrent),
  ("state_changed", .bool receipt.stateChanged),
  ("previous_version", maybe .int receipt.previousVersion),
  ("previous_hash", maybe .str receipt.previousHash),
  ("result_version", .int receipt.resultVersion),
  ("result_hash", .str receipt.resultHash),
  ("event_id", maybe .uuid receipt.eventId),
  ("event_bytes", maybe .bytes receipt.eventBytes),
  ("event_media_type", maybe .str receipt.eventMediaType),
  ("event_sha256", maybe .str receipt.eventSha256),
  ("event_artifact", maybe (fun ref => .record (artifactFields receipt.artifactSchemaVersion ref))
    receipt.eventArtifact),
  ("committed_at", .instant receipt.committedAt),
  ("cluster_time", .str receipt.clusterTime)]

def receiptToDocument (receipt : ReceiptModel word codec) : Fields :=
  ("_id", .uuid receipt.projectionTaskId) :: Native.compactFields receipt.dump

/-- The names of the fields; others are forbidden. -/
def artifactKeys : List String := ["uri", "sha256", "size_bytes", "media_type", "schema_version"]

def receiptKeys : List String := [
  "schema_version", "projection_task_id", "entity_uuid", "projection_version",
  "target_collection", "document_id", "applied_to_current", "state_changed", "previous_version",
  "previous_hash", "result_version", "result_hash", "event_id", "event_bytes", "event_media_type",
  "event_sha256", "event_artifact", "committed_at", "cluster_time"]

open Native

/-- The types of an `ArtifactRef`; its constraints are checked with the receipt. -/
def asArtifact : Native → Option (ArtifactRef × Option String)
  | .record entries => do
    let fields : Fields := entries
    guard (fields.within artifactKeys)
    let uri ← fields.required "uri" asStr
    let sha256 ← fields.required "sha256" asStr
    let sizeBytes ← fields.required "size_bytes" asInt
    let mediaType ← fields.required "media_type" asStr
    let schemaVersion ← fields.optional "schema_version" asStr
    return (⟨uri, sha256, sizeBytes, mediaType⟩, schemaVersion)
  | _ => none

variable (word codec)

def ReceiptModel.validate (fields : ReceiptFields) (schemaVersion : String)
    (artifactSchemaVersion : Option String) : Option (ReceiptModel word codec) :=
  if valid : fields.valid codec = true then
    if contract : contractValid word fields schemaVersion artifactSchemaVersion = true then
      some { toReceiptFields := fields, valid, schemaVersion, artifactSchemaVersion, contract }
    else none
  else none

def receiptFromDocument (document : Fields) : Option (ReceiptModel word codec) := do
  let body : Fields := document.filter fun field => field.1 ≠ "_id"
  guard (body.within receiptKeys)
  let schemaVersion ← match body.lookup "schema_version" with
    | some v => asStr v
    | none => some "1.0"
  let projectionTaskId ← body.required "projection_task_id" asUuid
  let entityUuid ← body.required "entity_uuid" asUuid
  let projectionVersion ← body.required "projection_version" asInt
  let targetCollection ← body.required "target_collection" asStr
  let documentId ← body.required "document_id" asUuid
  let appliedToCurrent ← body.required "applied_to_current" asBool
  let stateChanged ← body.required "state_changed" asBool
  let previousVersion ← body.optional "previous_version" asInt
  let previousHash ← body.optional "previous_hash" asStr
  let resultVersion ← body.required "result_version" asInt
  let resultHash ← body.required "result_hash" asStr
  let eventId ← body.optional "event_id" asUuid
  let eventBytes ← body.optional "event_bytes" asBytes
  let eventMediaType ← body.optional "event_media_type" asStr
  let eventSha256 ← body.optional "event_sha256" asStr
  let eventArtifact ← body.optional "event_artifact" asArtifact
  let committedAt ← body.required "committed_at" asInstant
  let clusterTime ← body.required "cluster_time" asStr
  ReceiptModel.validate word codec {
    projectionTaskId, entityUuid, projectionVersion, targetCollection, documentId
    appliedToCurrent, stateChanged, previousVersion, previousHash, resultVersion, resultHash
    eventId, eventBytes, eventMediaType, eventSha256
    eventArtifact := eventArtifact.map Prod.fst, committedAt, clusterTime
  } schemaVersion (eventArtifact.bind Prod.snd)

variable {word codec}

/-- The receipt with its instant cut to milliseconds. -/
def ReceiptModel.cut (receipt : ReceiptModel word codec) : ReceiptModel word codec where
  toReceiptFields := { receipt.toReceiptFields with
    committedAt := receipt.committedAt / 1000 * 1000 }
  valid := receipt.valid
  schemaVersion := receipt.schemaVersion
  artifactSchemaVersion := receipt.artifactSchemaVersion
  contract := receipt.contract

theorem validate_valid (receipt : ReceiptModel word codec) :
    ReceiptModel.validate word codec receipt.toReceiptFields receipt.schemaVersion
      receipt.artifactSchemaVersion = some receipt := by
  unfold ReceiptModel.validate
  rw [dif_pos receipt.valid, dif_pos receipt.contract]

theorem compact_cut_record (fields : Fields) :
    (Native.record fields).compact.cut = .record fields.kept := by
  simp only [Native.compact, Native.cut, Fields.kept]

theorem asArtifact_kept (schemaVersion : Option String) (ref : ArtifactRef) :
    asArtifact (Native.record (artifactFields schemaVersion ref)).compact.cut =
      some (ref, schemaVersion) := by
  have distinct : ((artifactFields schemaVersion ref).map Prod.fst).Nodup := by
    simp [artifactFields]
  have named : (artifactFields schemaVersion ref).kept.within artifactKeys = true :=
    within_kept (by simp [artifactFields, artifactKeys])
  have uri : (artifactFields schemaVersion ref).kept.required "uri" asStr = some ref.uri :=
    required_kept (v := .str ref.uri) distinct rfl rfl _
  have sha256 : (artifactFields schemaVersion ref).kept.required "sha256" asStr =
      some ref.sha256 := required_kept (v := .str ref.sha256) distinct rfl rfl _
  have size : (artifactFields schemaVersion ref).kept.required "size_bytes" asInt =
      some ref.sizeBytes := required_kept (v := .int ref.sizeBytes) distinct rfl rfl _
  have type : (artifactFields schemaVersion ref).kept.required "media_type" asStr =
      some ref.mediaType := required_kept (v := .str ref.mediaType) distinct rfl rfl _
  have version : (artifactFields schemaVersion ref).kept.optional "schema_version" asStr =
      some (schemaVersion.map id) :=
    optional_kept (w := .str) distinct rfl (fun _ => rfl) fun _ => rfl
  rw [compact_cut_record, asArtifact]
  simp [named, uri, sha256, size, type, version]

theorem dump_distinct (receipt : ReceiptModel word codec) :
    (receipt.dump.map Prod.fst).Nodup := by
  simp [ReceiptModel.dump]

theorem dump_named (receipt : ReceiptModel word codec) :
    receipt.dump.map Prod.fst ⊆ receiptKeys := by
  simp [ReceiptModel.dump, receiptKeys]

/-- Without its `_id` the stored document is the kept dump. -/
theorem body_of_stored {receipt : ReceiptModel word codec} {document : Fields}
    (kept : (receiptToDocument receipt).stored = some document) :
    document.filter (fun field => field.1 ≠ "_id") = receipt.dump.kept := by
  rw [eq_cutFields_of_stored kept, receiptToDocument, Native.cutFields,
    List.filter_cons_of_neg (by simp)]
  refine List.filter_eq_self.mpr fun field member => decide_eq_true ?_
  rintro same
  have key : field.1 ∈ receipt.dump.kept.map Prod.fst := List.mem_map_of_mem member
  rw [Fields.kept, keys_cutFields] at key
  have known := dump_named receipt (keys_compactFields _ key)
  rw [same] at known
  simp [receiptKeys] at known

section Reading
variable (receipt : ReceiptModel word codec)

/-- The fields that are always there, by their types. -/
theorem dump_str {key text : String} (here : receipt.dump.lookup key = some (.str text)) :
    receipt.dump.kept.required key asStr = some text :=
  required_kept (v := .str text) (dump_distinct receipt) here rfl _

theorem dump_int {key : String} {n : Int} (here : receipt.dump.lookup key = some (.int n)) :
    receipt.dump.kept.required key asInt = some n :=
  required_kept (v := .int n) (dump_distinct receipt) here rfl _

theorem dump_bool {key : String} {b : Bool} (here : receipt.dump.lookup key = some (.bool b)) :
    receipt.dump.kept.required key asBool = some b :=
  required_kept (v := .bool b) (dump_distinct receipt) here rfl _

theorem dump_uuid {key : String} {id : Nat} (here : receipt.dump.lookup key = some (.uuid id)) :
    receipt.dump.kept.required key asUuid = some id :=
  required_kept (v := .uuid id) (dump_distinct receipt) here rfl _

/-- A field that may be left out, and comes back as it was. -/
theorem dump_optional {α : Type} {key : String} {w : α → Native} {value : Option α}
    (here : receipt.dump.lookup key = some (maybe w value)) {read : Native → Option α}
    (reads : ∀ a, read (w a).compact.cut = some a) (filled : ∀ a, (w a).isNull = false) :
    receipt.dump.kept.optional key read = some value := by
  have back := optional_kept (dump_distinct receipt) here reads filled
  rwa [Option.map_id'] at back

end Reading

theorem artifact_paired (receipt : ReceiptModel word codec) :
    (receipt.eventArtifact.map fun ref => (ref, receipt.artifactSchemaVersion)).map Prod.fst =
      receipt.eventArtifact := by
  cases receipt.eventArtifact <;> rfl

/-- Without an artifact there is no version of one. -/
theorem artifactSchemaVersion_paired (receipt : ReceiptModel word codec) :
    (receipt.eventArtifact.map fun ref => (ref, receipt.artifactSchemaVersion)).bind Prod.snd =
      receipt.artifactSchemaVersion := by
  have contract := receipt.contract
  simp only [contractValid, Bool.and_eq_true, Bool.or_eq_true] at contract
  cases artifact : receipt.eventArtifact with
  | some ref => rfl
  | none =>
    rw [artifact] at contract
    exact (Option.isNone_iff_eq_none.mp (by simpa using contract.2)).symm

/-- A stored receipt is accepted, and has lost the microseconds of its time. -/
theorem receiptFromDocument_stored {receipt : ReceiptModel word codec} {document : Fields}
    (kept : (receiptToDocument receipt).stored = some document) :
    receiptFromDocument word codec document = some receipt.cut := by
  have named : receipt.dump.kept.within receiptKeys = true := within_kept (dump_named receipt)
  have artifact : receipt.dump.kept.optional "event_artifact" asArtifact =
      some (receipt.eventArtifact.map fun ref => (ref, receipt.artifactSchemaVersion)) :=
    optional_kept (dump_distinct receipt) rfl (asArtifact_kept receipt.artifactSchemaVersion)
      fun _ => rfl
  have instant : receipt.dump.kept.required "committed_at" asInstant =
      some (receipt.committedAt / 1000 * 1000) :=
    required_kept (v := .instant receipt.committedAt) (dump_distinct receipt) rfl rfl _
  unfold receiptFromDocument
  rw [body_of_stored kept]
  refine Option.bind_eq_some_iff.mpr ⟨(), by rw [named]; rfl, ?_⟩
  refine Option.bind_eq_some_iff.mpr ⟨receipt.schemaVersion, ?_, ?_⟩
  · rfl
  refine Option.bind_eq_some_iff.mpr ⟨_, dump_uuid receipt rfl, ?_⟩
  refine Option.bind_eq_some_iff.mpr ⟨_, dump_uuid receipt rfl, ?_⟩
  refine Option.bind_eq_some_iff.mpr ⟨_, dump_int receipt rfl, ?_⟩
  refine Option.bind_eq_some_iff.mpr ⟨_, dump_str receipt rfl, ?_⟩
  refine Option.bind_eq_some_iff.mpr ⟨_, dump_uuid receipt rfl, ?_⟩
  refine Option.bind_eq_some_iff.mpr ⟨_, dump_bool receipt rfl, ?_⟩
  refine Option.bind_eq_some_iff.mpr ⟨_, dump_bool receipt rfl, ?_⟩
  refine Option.bind_eq_some_iff.mpr ⟨_,
    dump_optional (w := .int) receipt rfl (fun _ => rfl) fun _ => rfl, ?_⟩
  refine Option.bind_eq_some_iff.mpr ⟨_,
    dump_optional (w := .str) receipt rfl (fun _ => rfl) fun _ => rfl, ?_⟩
  refine Option.bind_eq_some_iff.mpr ⟨_, dump_int receipt rfl, ?_⟩
  refine Option.bind_eq_some_iff.mpr ⟨_, dump_str receipt rfl, ?_⟩
  refine Option.bind_eq_some_iff.mpr ⟨_,
    dump_optional (w := .uuid) receipt rfl (fun _ => rfl) fun _ => rfl, ?_⟩
  refine Option.bind_eq_some_iff.mpr ⟨_,
    dump_optional (w := .bytes) receipt rfl (fun _ => rfl) fun _ => rfl, ?_⟩
  refine Option.bind_eq_some_iff.mpr ⟨_,
    dump_optional (w := .str) receipt rfl (fun _ => rfl) fun _ => rfl, ?_⟩
  refine Option.bind_eq_some_iff.mpr ⟨_,
    dump_optional (w := .str) receipt rfl (fun _ => rfl) fun _ => rfl, ?_⟩
  refine Option.bind_eq_some_iff.mpr ⟨_, artifact, ?_⟩
  refine Option.bind_eq_some_iff.mpr ⟨_, instant, ?_⟩
  refine Option.bind_eq_some_iff.mpr ⟨_, dump_str receipt rfl, ?_⟩
  rw [artifact_paired, artifactSchemaVersion_paired]
  exact validate_valid receipt.cut

end Contract

end Collector.Persistence.Mongo
