import Collector.Persistence.Projection.Rows

/-!
The documents of the projection flow. A command leaves PostgreSQL for the projector, a receipt
comes back, and an event describes the change it reports. Validators that a document must pass
to exist are part of its type.
-/

namespace Collector.Persistence.Projection
open Collector.Lib

/-- `^[a-z][a-z0-9_]*$`, at most 120 characters. -/
def isCollectionName (text : String) : Bool :=
  decide (text.length ≤ 120) &&
    match text.toList with
    | first :: rest => decide ('a' ≤ first ∧ first ≤ 'z') &&
        rest.all fun c => decide ('a' ≤ c ∧ c ≤ 'z') || c.isDigit || c == '_'
    | [] => false

/-- `0|[1-9][0-9]*`. -/
def isDecimal (digits : List Char) : Bool :=
  match digits with
  | ['0'] => true
  | first :: rest => decide ('1' ≤ first ∧ first ≤ '9') && rest.all Char.isDigit
  | [] => false

/-- `SCHEMA_VERSION_PATTERN`. -/
def isSchemaVersion (text : String) : Bool :=
  isDecimal (text.toList.takeWhile (· != '.')) &&
    match text.toList.dropWhile (· != '.') with
    | '.' :: minor => isDecimal minor
    | _ => false

structure ProjectionCommand where
  schemaVersion : String := "1.0"
  taskId : Uuid
  entityUuid : Uuid
  projectionVersion : Int
  targetCollection : String
  targetSchemaVersion : String
  artifact : NormalizedArtifactRef
  priority : Int
  notBefore : Option Time
  issuedAt : Time
  deriving DecidableEq

/-- The validators of `ProjectionCommand`. -/
def ProjectionCommand.valid (command : ProjectionCommand) : Bool :=
  decide (1 ≤ command.projectionVersion) && isCollectionName command.targetCollection &&
  isSchemaVersion command.targetSchemaVersion &&
  decide (0 ≤ command.priority ∧ command.priority ≤ 100) &&
  decide (command.artifact.entityUuid = command.entityUuid)

/-- The fields of a `DomainChangedEvent` that have a column in the rows of an acknowledgement. -/
structure DomainChangedEvent where
  eventId : Uuid
  aggregateId : Uuid
  aggregateVersion : Int
  eventType : String
  payloadSchemaVersion : String
  deriving DecidableEq

structure ArtifactRef where
  uri : String
  sha256 : String
  sizeBytes : Int
  mediaType : String
  deriving DecidableEq

/-- Hashing and JSON. `decodeEvent` is `none` where the validation of `decode_event` fails. -/
structure Codec where
  sha256Hex : Bytes → String
  canonicalJsonBytes : ProjectionCommand → Bytes
  decodeEvent : Bytes → Option DomainChangedEvent

structure ReceiptFields where
  projectionTaskId : Uuid
  entityUuid : Uuid
  projectionVersion : Int
  targetCollection : String
  documentId : Uuid
  appliedToCurrent : Bool
  stateChanged : Bool
  previousVersion : Option Int := none
  previousHash : Option String := none
  resultVersion : Int
  resultHash : String
  eventId : Option Uuid := none
  eventBytes : Option Bytes := none
  eventMediaType : Option String := none
  eventSha256 : Option String := none
  eventArtifact : Option ArtifactRef := none
  committedAt : Time
  clusterTime : String
  deriving DecidableEq

/-- `should_emit_domain_changed`. -/
def ReceiptFields.shouldEmitDomainChanged (receipt : ReceiptFields) : Bool :=
  receipt.appliedToCurrent && receipt.stateChanged

/-- The field constraints and `_consistent` of `AppliedProjectionReceipt`. -/
def ReceiptFields.valid (codec : Codec) (receipt : ReceiptFields) : Bool :=
  decide (1 ≤ receipt.projectionVersion) && isCollectionName receipt.targetCollection &&
  receipt.previousVersion.all (fun version => decide (1 ≤ version)) &&
  receipt.previousHash.all isStateHash && decide (1 ≤ receipt.resultVersion) &&
  isStateHash receipt.resultHash && receipt.eventSha256.all isSha256Hex &&
  receipt.eventArtifact.all (fun artifact => isSha256Hex artifact.sha256 &&
    decide (0 ≤ artifact.sizeBytes)) &&
  decide (receipt.clusterTime ≠ "") &&
  (if receipt.shouldEmitDomainChanged then
    (receipt.eventBytes.isSome != receipt.eventArtifact.isSome) && receipt.eventId.isSome
  else
    receipt.eventBytes.isNone && receipt.eventArtifact.isNone && receipt.eventId.isNone) &&
  receipt.eventBytes.all (fun bytes => decide (bytes.length ≤ inlineEventLimitBytes) &&
    receipt.eventMediaType.isSome && decide (receipt.eventSha256 = some (codec.sha256Hex bytes))) &&
  (if receipt.appliedToCurrent then decide (receipt.resultVersion = receipt.projectionVersion)
  else decide (receipt.projectionVersion ≤ receipt.resultVersion)) &&
  !(receipt.stateChanged && decide (receipt.previousHash = some receipt.resultHash))

/-- A receipt that its validators accepted. -/
structure AppliedProjectionReceipt (codec : Codec) extends ReceiptFields where
  valid : toReceiptFields.valid codec = true

/-- `_receipt_event_sha256`. -/
def ReceiptFields.recordedSha256 (receipt : ReceiptFields) : Option String :=
  receipt.eventSha256.or (receipt.eventArtifact.map ArtifactRef.sha256)

/-- `receipt.event_media_type or …`: an empty string is no media type. -/
def ReceiptFields.mediaType (receipt : ReceiptFields) : Option String :=
  (receipt.eventMediaType.filter (· != "")).or (receipt.eventArtifact.map ArtifactRef.mediaType)

theorem AppliedProjectionReceipt.collection_fits {codec : Codec}
    (receipt : AppliedProjectionReceipt codec) : receipt.targetCollection.length ≤ 120 := by
  have valid := receipt.valid
  simp only [ReceiptFields.valid, isCollectionName, Bool.and_eq_true, decide_eq_true_eq] at valid
  tauto

theorem AppliedProjectionReceipt.version_pos {codec : Codec}
    (receipt : AppliedProjectionReceipt codec) : 1 ≤ receipt.projectionVersion := by
  have valid := receipt.valid
  simp only [ReceiptFields.valid, Bool.and_eq_true, decide_eq_true_eq] at valid
  tauto

theorem AppliedProjectionReceipt.eventId_isSome {codec : Codec}
    (receipt : AppliedProjectionReceipt codec) :
    receipt.eventId.isSome = receipt.shouldEmitDomainChanged := by
  have valid := receipt.valid
  simp only [ReceiptFields.valid, Bool.and_eq_true] at valid
  have emits := valid.1.1.1.2
  split at emits
  · rename_i emit
    simp only [Bool.and_eq_true] at emits
    rw [emit, emits.2]
  · rename_i silent
    simp only [Bool.and_eq_true, Option.isNone_iff_eq_none] at emits
    simp [emits.2, silent]

end Collector.Persistence.Projection
