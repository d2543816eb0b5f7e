import Collector.Contracts.CanonicalForm
import Collector.Persistence.Projection.Contracts

/-!
The canonical JSON of a command. Its keys are fixed and its leaves are scalars, so the bytes tell
two commands apart exactly when some field is written differently.
-/

namespace Collector.Persistence.Projection
open Collector.Lib
open Collector.Contracts (Value toCanonicalValue canonicalEntries canonicalJsonBytes isoformat)

/-- ASCII text is in NFC. -/
def KeepsAscii (nfc : String → String) : Prop :=
  ∀ s : String, (∀ c ∈ s.toList, c.toNat < 128) → nfc s = s

section Values
variable {F : Type}

/-- `model_dump` of the artifact reference. -/
def NormalizedArtifactRef.value (ref : NormalizedArtifactRef) : Value F :=
  .mapping [
    ("uri", .str ref.uri),
    ("sha256", .str ref.sha256),
    ("size_bytes", .int ref.sizeBytes),
    ("media_type", .str ref.mediaType),
    ("schema_version", .str ref.schemaVersion),
    ("entity_uuid", .uuid ref.entityUuid),
    ("domain", .str ref.domain.value),
    ("parser_version", .str ref.parserVersion),
    ("fetch_id", .uuid ref.fetchId),
    ("raw_sha256", .str ref.rawSha256),
    ("raw_uri", .str ref.rawUri),
    ("produced_at", .datetime ref.producedAt (some 0))]

def instantValue : Option Time → Value F
  | none => .none
  | some instant => .datetime instant (some 0)

/-- `model_dump` of a command. -/
def ProjectionCommand.value (command : ProjectionCommand) : Value F :=
  .mapping [
    ("schema_version", .str command.schemaVersion),
    ("task_id", .uuid command.taskId),
    ("entity_uuid", .uuid command.entityUuid),
    ("projection_version", .int command.projectionVersion),
    ("target_collection", .str command.targetCollection),
    ("target_schema_version", .str command.targetSchemaVersion),
    ("artifact", command.artifact.value),
    ("priority", .int command.priority),
    ("not_before", instantValue command.notBefore),
    ("issued_at", .datetime command.issuedAt (some 0))]

/-- `canonical_json_bytes` of a command; nothing in a command is refused. -/
def ProjectionCommand.canonicalBytes (floats : FloatText F) (nfc : String → String)
    (command : ProjectionCommand) : Bytes :=
  match canonicalJsonBytes floats nfc command.value with
  | .ok bytes => bytes
  | .error _ => []

end Values

section Trees
variable {F : Type} {nfc : String → String}

/-- A mapping whose keys are different and in NFC is encoded entry by entry. -/
theorem canonicalEntries_fixed {entries : List (String × Value F)} {trees : List (Json F)}
    (result : List (String × Json F)) (fixed : ∀ entry ∈ entries, nfc entry.1 = entry.1)
    (nodup : (result.map Prod.fst ++ entries.map Prod.fst).Nodup)
    (each : List.Forall₂ (fun entry tree => toCanonicalValue nfc entry.2 = .ok tree) entries trees) :
    canonicalEntries nfc entries result = .ok (result ++ (entries.map Prod.fst).zip trees) := by
  induction each generalizing result with
  | nil => simp [canonicalEntries, pure, Except.pure]
  | @cons entry tree entries trees encoded _ ih =>
    obtain ⟨key, item⟩ := entry
    have same : nfc key = key := fixed (key, item) List.mem_cons_self
    have fresh : key ∉ result.map Prod.fst := by
      intro member
      exact (List.disjoint_of_nodup_append nodup) member List.mem_cons_self
    have rest := ih (result ++ [(key, tree)])
      (fun entry member => fixed entry (List.mem_cons_of_mem _ member))
      (by simpa using nodup)
    simp only [canonicalEntries, same, if_neg fresh, encoded, bind, Except.bind, rest]
    simp

theorem toCanonicalValue_mapping {entries : List (String × Value F)} (trees : List (Json F))
    (fixed : ∀ entry ∈ entries, nfc entry.1 = entry.1) (nodup : (entries.map Prod.fst).Nodup)
    (each : List.Forall₂ (fun entry tree => toCanonicalValue nfc entry.2 = .ok tree) entries trees) :
    toCanonicalValue nfc (.mapping entries) = .ok (.obj ((entries.map Prod.fst).zip trees)) := by
  have encoded := canonicalEntries_fixed [] fixed (by simpa using nodup) each
  simp only [toCanonicalValue, encoded, bind, Except.bind, pure, Except.pure, List.nil_append]

def artifactKeys : List String :=
  ["uri", "sha256", "size_bytes", "media_type", "schema_version", "entity_uuid", "domain",
    "parser_version", "fetch_id", "raw_sha256", "raw_uri", "produced_at"]

def commandKeys : List String :=
  ["schema_version", "task_id", "entity_uuid", "projection_version", "target_collection",
    "target_schema_version", "artifact", "priority", "not_before", "issued_at"]

def instantText (instant : Time) : String := isoformat instant ++ "Z"

def instantTree : Option Time → Json F
  | none => .null
  | some instant => .str (instantText instant)

/-- The canonical leaves of an artifact reference. -/
def NormalizedArtifactRef.leaves (nfc : String → String) (ref : NormalizedArtifactRef) :
    List (Json F) :=
  [.str (nfc ref.uri), .str (nfc ref.sha256), .int ref.sizeBytes, .str (nfc ref.mediaType),
    .str (nfc ref.schemaVersion), .str (Contracts.uuidText ref.entityUuid),
    .str (nfc ref.domain.value), .str (nfc ref.parserVersion),
    .str (Contracts.uuidText ref.fetchId), .str (nfc ref.rawSha256), .str (nfc ref.rawUri),
    .str (instantText ref.producedAt)]

def NormalizedArtifactRef.tree (nfc : String → String) (ref : NormalizedArtifactRef) : Json F :=
  .obj (artifactKeys.zip (ref.leaves nfc))

def ProjectionCommand.parts (nfc : String → String) (command : ProjectionCommand) :
    List (Json F) :=
  [.str (nfc command.schemaVersion), .str (Contracts.uuidText command.taskId),
    .str (Contracts.uuidText command.entityUuid), .int command.projectionVersion,
    .str (nfc command.targetCollection), .str (nfc command.targetSchemaVersion),
    command.artifact.tree nfc, .int command.priority, instantTree command.notBefore,
    .str (instantText command.issuedAt)]

def ProjectionCommand.tree (nfc : String → String) (command : ProjectionCommand) : Json F :=
  .obj (commandKeys.zip (command.parts nfc))

theorem ascii_keys (ascii : KeepsAscii nfc) :
    ∀ key ∈ artifactKeys ++ commandKeys, nfc key = key := by
  have plain : ∀ key ∈ artifactKeys ++ commandKeys,
      (key.toList.all fun c => decide (c.toNat < 128)) = true := by decide
  intro key member
  exact ascii key fun c inside => of_decide_eq_true (List.all_eq_true.mp (plain key member) c inside)

theorem instant_encodes (instant : Time) :
    toCanonicalValue nfc (.datetime instant (some 0) : Value F) = .ok (.str (instantText instant)) :=
  rfl

theorem NormalizedArtifactRef.encodes (ascii : KeepsAscii nfc) (ref : NormalizedArtifactRef) :
    toCanonicalValue nfc (ref.value : Value F) = .ok (ref.tree nfc) := by
  refine toCanonicalValue_mapping (ref.leaves nfc) ?_ (by decide : artifactKeys.Nodup) ?_
  · intro entry member
    apply ascii_keys ascii entry.1
    exact List.mem_append_left _ (List.mem_map_of_mem (f := Prod.fst) member)
  · simp only [leaves]
    repeat' constructor

theorem instantValue_encodes (instant : Option Time) :
    toCanonicalValue nfc (instantValue instant : Value F) = .ok (instantTree instant) := by
  cases instant with
  | none => rfl
  | some instant => rfl

theorem ProjectionCommand.encodes (ascii : KeepsAscii nfc) (command : ProjectionCommand) :
    toCanonicalValue nfc (command.value : Value F) = .ok (command.tree nfc) := by
  refine toCanonicalValue_mapping (command.parts nfc) ?_ (by decide : commandKeys.Nodup) ?_
  · intro entry member
    apply ascii_keys ascii entry.1
    exact List.mem_append_right _ (List.mem_map_of_mem (f := Prod.fst) member)
  · have artifact := command.artifact.encodes (F := F) ascii
    have notBefore : toCanonicalValue nfc (instantValue command.notBefore : Value F) =
        .ok (instantTree command.notBefore) := instantValue_encodes _
    simp only [parts, List.forall₂_cons, artifact, notBefore, List.Forall₂.nil, and_true, true_and]
    repeat' constructor

/-- The leaves of a command are scalars but for the artifact. -/
theorem NormalizedArtifactRef.tree_distinct (ref : NormalizedArtifactRef) :
    (ref.tree nfc : Json F).Distinct := by
  refine .obj (by decide : artifactKeys.Nodup) ?_
  simp only [artifactKeys, leaves, List.zip_cons_cons, List.zip_nil_right, List.forall_mem_cons,
    List.not_mem_nil, false_implies, implies_true, and_true]
  repeat' constructor

theorem ProjectionCommand.tree_distinct (command : ProjectionCommand) :
    (command.tree nfc : Json F).Distinct := by
  have artifact : (command.artifact.tree nfc : Json F).Distinct := command.artifact.tree_distinct
  have notBefore : (instantTree command.notBefore : Json F).Distinct := by
    cases command.notBefore <;> constructor
  refine .obj (by decide : commandKeys.Nodup) ?_
  simp only [commandKeys, parts, List.zip_cons_cons, List.zip_nil_right, List.forall_mem_cons,
    List.not_mem_nil, false_implies, implies_true, artifact, notBefore, true_and, and_true]
  repeat' constructor

variable (floats : FloatText F)

theorem ProjectionCommand.canonicalBytes_eq (ascii : KeepsAscii nfc) (command : ProjectionCommand) :
    command.canonicalBytes floats nfc =
      utf8 (.ofList ((command.tree nfc : Json F).sortKeys.text floats)) := by
  simp only [canonicalBytes, canonicalJsonBytes, command.encodes ascii, bind, Except.bind, pure,
    Except.pure]

theorem utf8_ofList (chars : List Char) :
    utf8 (.ofList chars) = chars.flatMap String.utf8EncodeChar := by
  simp [utf8, List.utf8Encode]

theorem ProjectionCommand.canonicalBytes_inj (ascii : KeepsAscii nfc) (c d : ProjectionCommand) :
    c.canonicalBytes floats nfc = d.canonicalBytes floats nfc ↔
      (c.tree nfc : Json F).sortKeys = (d.tree nfc : Json F).sortKeys := by
  rw [c.canonicalBytes_eq floats ascii, d.canonicalBytes_eq floats ascii]
  constructor
  · intro same
    exact Json.text_injective floats c.tree_distinct.sortKeys d.tree_distinct.sortKeys
      (String.ofList_injective (Contracts.utf8_injective same))
  · intro same
    rw [same]

theorem NormalizedArtifactRef.leaves_sorted (ref : NormalizedArtifactRef) :
    (ref.leaves nfc : List (Json F)).map Json.sortKeys = ref.leaves nfc := by
  simp only [leaves, List.map_cons, List.map_nil, Json.sortKeys]

/-- References sort alike when they have one canonical form, and only then. -/
theorem NormalizedArtifactRef.sortKeys_inj (ascii : KeepsAscii nfc)
    (ref other : NormalizedArtifactRef) :
    (ref.tree nfc : Json F).sortKeys = (other.tree nfc : Json F).sortKeys ↔
      toCanonicalValue nfc (ref.value : Value F) = toCanonicalValue nfc other.value := by
  rw [ref.encodes ascii, other.encodes ascii, Except.ok.injEq]
  constructor
  · intro same
    have leaves := (Json.sortKeys_zip_inj (by decide : artifactKeys.Nodup) rfl rfl).mp same
    rw [ref.leaves_sorted, other.leaves_sorted] at leaves
    exact congrArg (fun leaves => Json.obj (artifactKeys.zip leaves)) leaves
  · intro same
    rw [same]

theorem instantTree_inj (instant other : Option Time) :
    (instantTree instant : Json F).sortKeys = (instantTree other : Json F).sortKeys ↔
      instant.map instantText = other.map instantText := by
  cases instant <;> cases other <;> simp [instantTree, Json.sortKeys]

/-- Commands that agree but for these two fields have the same bytes exactly when the two are
written alike. -/
theorem ProjectionCommand.canonicalBytes_with (ascii : KeepsAscii nfc) (command : ProjectionCommand)
    (ref : NormalizedArtifactRef) (instant : Option Time) :
    command.canonicalBytes floats nfc =
        { command with artifact := ref, notBefore := instant }.canonicalBytes floats nfc ↔
      command.notBefore.map instantText = instant.map instantText ∧
        toCanonicalValue nfc (command.artifact.value : Value F) = toCanonicalValue nfc ref.value := by
  rw [canonicalBytes_inj floats ascii, ← command.artifact.sortKeys_inj ascii]
  refine (Json.sortKeys_zip_inj (by decide : commandKeys.Nodup) rfl rfl).trans ?_
  simp only [parts, List.map_cons, List.map_nil, List.cons.injEq, true_and, and_true,
    instantTree_inj]
  exact and_comm

end Trees
end Collector.Persistence.Projection
