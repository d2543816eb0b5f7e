import Mathlib.Order.FixedPoints
import Collector.Lib.Json
import Collector.Lib.Machine

/-!
From the JSON Schema of a contract to the `$jsonSchema` of a collection. References are inlined; one
that leads back into a definition on the stack becomes the schema that takes everything. The type
names are replaced, annotations are dropped, and what has no counterpart is refused.
-/

namespace Collector.Persistence.Mongo
open Collector.Lib

/-- A mapping as it was read, each key once. -/
abbrev JsonSchema (F : Type) := List (String × Json F)

/-- What a conversion raises. The last two are the interpreter's own: a value of another JSON type than
the code goes on to use, and its limit on nested calls. -/
inductive ConvertError (F : Type) where
  | unsupportedRef (ref : Json F)
  | missingDefinition (ref : String)
  | unknownFormat (fmt : Json F)
  | formatOfOther (fmt : String)
  | unsupportedKeyword (key : String)
  | unknownType (name : Json F)
  | wrongShape
  | recursion

section Model
variable {F : Type}

/-- `repr` is the interpreter's text of a value. -/
def ConvertError.message (repr : Json F → String) : ConvertError F → Option String
  | unsupportedRef ref => some ("непідтримуваний $ref " ++ repr ref ++ ": лише #/$defs/<Name>")
  | missingDefinition ref => some ("$ref " ++ repr (.str ref) ++ ": визначення відсутнє в $defs")
  | unknownFormat fmt =>
    some ("format " ++ repr fmt ++ " не має BSON-відповідника; додайте мапінг явно")
  | formatOfOther fmt => some ("format " ++ repr (.str fmt) ++ " очікується лише для type=string")
  | unsupportedKeyword key =>
    some ("ключове слово " ++ repr (.str key) ++ " не підтримується Mongo $jsonSchema")
  | unknownType name => some ("JSON-тип " ++ repr name ++ " невідомий")
  | wrongShape => none
  | recursion => none

/-- `_TYPE_MAP`. -/
def typeMap : List (String × List String) :=
  [("string", ["string"]), ("integer", ["int", "long"]),
    ("number", ["int", "long", "double", "decimal"]), ("boolean", ["bool"]), ("object", ["object"]),
    ("array", ["array"]), ("null", ["null"])]

/-- `_FORMAT_MAP`. -/
def formatMap : List (String × String) :=
  [("uuid", "binData"), ("base64url", "binData"), ("date-time", "date")]

/-- `_ANNOTATIONS`. -/
def annotations : List String :=
  ["$schema", "$id", "$defs", "title", "description", "default", "examples", "x-contract-version"]

/-- `_STRING_ONLY`. -/
def stringOnly : List String := ["pattern", "minLength", "maxLength"]

/-- `_PASSTHROUGH`. -/
def passthrough : List String :=
  ["required", "enum", "minimum", "maximum", "exclusiveMinimum", "exclusiveMaximum", "multipleOf",
    "minLength", "maxLength", "pattern", "minItems", "maxItems", "uniqueItems", "minProperties",
    "maxProperties"]

/-- `_REF_PREFIX`. -/
def refPrefix : String := "#/$defs/"

/-- The name after the prefix. -/
def refName (ref : String) : Option String :=
  if refPrefix.toList.isPrefixOf ref.toList then
    some (.ofList (ref.toList.drop refPrefix.toList.length))
  else none

/-- `node.get(key)`, where JSON's null is the interpreter's `None`. -/
def given (node : JsonSchema F) (key : String) : Option (Json F) :=
  match node.lookup key with
  | some .null => none
  | value => value

/-- What a loop over a value runs through. -/
def iterate : Json F → Except (ConvertError F) (List (Json F))
  | .arr items => .ok items
  | .obj entries => .ok (entries.map fun entry => .str entry.1)
  | .str text => .ok (text.toList.map fun c => .str (.ofList [c]))
  | _ => .error .wrongShape

def typeNames : Json F → Except (ConvertError F) (List (Json F))
  | .str name => .ok [.str name]
  | value => iterate value

/-- The BSON types of one JSON type. Arrays and objects are no keys of a mapping. -/
def mappedType : Json F → Except (ConvertError F) (List String)
  | .str name => require (typeMap.lookup name) (.unknownType (.str name))
  | .arr _ | .obj _ => .error .wrongShape
  | name => .error (.unknownType name)

def addType (result : List String) (bson : String) : List String :=
  if bson ∈ result then result else result ++ [bson]

def addTypes (result : List String) (name : Json F) : Except (ConvertError F) (List String) := do
  let mapped ← mappedType name
  return mapped.foldl addType result

/-- One type stands without its list. -/
def typeValue : List String → Json F
  | [bson] => .str bson
  | types => .arr (types.map .str)

/-- `_bson_type`. -/
def bsonType (value : Json F) : Except (ConvertError F) (Json F) := do
  let names ← typeNames value
  let result ← names.foldlM addTypes []
  return typeValue result

/-- The BSON type that stands for a format of strings. -/
def formatType (node : JsonSchema F) : Except (ConvertError F) (Option String) :=
  match given node "format" with
  | none => .ok none
  | some (.str fmt) =>
    match formatMap.lookup fmt, node.lookup "type" with
    | none, _ => .error (.unknownFormat (.str fmt))
    | some bson, some (.str "string") => .ok (some bson)
    | some _, _ => .error (.formatOfOther fmt)
  | some (.arr _) | some (.obj _) => .error .wrongShape
  | some fmt => .error (.unknownFormat fmt)

section Keywords
-- `convertNode` is the call on a schema below this one, `fmt` the BSON type of the node's format.
variable (convertNode : JsonSchema F → Except (ConvertError F) (JsonSchema F)) (fmt : Option String)

/-- The call on a value that should be a schema. -/
def convertValue : Json F → Except (ConvertError F) (Json F)
  | .obj node => (convertNode node).map .obj
  | _ => .error .wrongShape

/-- What a keyword adds to the output. -/
@[grind =]
def keyword (key : String) (value : Json F) : Except (ConvertError F) (Option (String × Json F)) :=
  if key ∈ annotations ∨ key = "format" then
    return none
  else if key = "type" then
    match fmt with
    | none => return some ("bsonType", ← bsonType value)
    | some _ => return none
  else if fmt.isSome ∧ key ∈ stringOnly then
    return none
  else if key = "properties" then
    match value with
    | .obj specs => do
      let converted ← specs.mapM fun (name, spec) =>
        (convertValue convertNode spec).map fun spec => (name, spec)
      return some ("properties", .obj converted)
    | _ => .error .wrongShape
  else if key = "items" ∨ key = "not" then
    return some (key, ← convertValue convertNode value)
  else if key = "additionalProperties" then
    match value with
    | .bool allowed => return some (key, .bool allowed)
    | _ => return some (key, ← convertValue convertNode value)
  else if key = "anyOf" ∨ key = "oneOf" ∨ key = "allOf" then do
    let options ← iterate value
    return some (key, .arr (← options.mapM (convertValue convertNode)))
  else if key = "const" then
    return some ("enum", .arr [value])
  else if key ∈ passthrough then
    return some (key, value)
  else .error (.unsupportedKeyword key)

def convertEntry (out : JsonSchema F) (entry : String × Json F) :
    Except (ConvertError F) (JsonSchema F) := do
  match ← keyword convertNode fmt entry.1 entry.2 with
  | none => return out
  | some assigned => return Json.setEntry out assigned

end Keywords

/-- The definition with the siblings of the reference over it. -/
def merged (definition node : JsonSchema F) : JsonSchema F :=
  (node.filter fun entry => entry.1 ≠ "$ref").foldl Json.setEntry definition

/-- `_convert`, within a number of nested calls. -/
def convert (defs : JsonSchema F) :
    Nat → List String → JsonSchema F → Except (ConvertError F) (JsonSchema F)
  | 0, _, _ => .error .recursion
  | fuel + 1, stack, node =>
    match given node "$ref" with
    | some (.str ref) =>
      match refName ref with
      | none => .error (.unsupportedRef (.str ref))
      | some name =>
        if name ∈ stack then .ok []
        else
          match defs.lookup name with
          | none => .error (.missingDefinition ref)
          | some (.obj definition) => convert defs fuel (stack ++ [name]) (merged definition node)
          | some _ => .error .wrongShape
    | some ref => .error (.unsupportedRef ref)
    | none => do
      let fmt ← formatType node
      let out := match fmt with
        | none => []
        | some bson => [("bsonType", .str bson)]
      node.foldlM (convertEntry (convert defs fuel stack) fmt) out

end Model

/-!
What the two schema languages say of a value. A reading of a language is any relation that holds of a
schema and a value exactly if all keywords of the schema hold, so references are unfolded and nothing
is said of a chain of references that never comes to a keyword. The keywords that both languages
have are read in one way; of the limits on numbers, texts and sizes each language has its own reading.
-/

/-- A value of a document, of the types that JSON has. -/
inductive Stored (F : Type) where
  | null
  | bool (b : Bool)
  | int (i : Int)
  | long (i : Int)
  | double (x : F)
  | decimal (text : String)
  | str (s : String)
  | array (items : List (Stored F))
  | object (fields : List (String × Stored F))

section Readings
variable {F : Type}

namespace Stored

/-- The types of the value in a JSON Schema, where an integer is a value of an integer type. -/
def jsonTypes : Stored F → List String
  | null => ["null"]
  | bool _ => ["boolean"]
  | int _ | long _ => ["integer", "number"]
  | double _ | decimal _ => ["number"]
  | str _ => ["string"]
  | array _ => ["array"]
  | object _ => ["object"]

def bsonAlias : Stored F → String
  | null => "null"
  | bool _ => "bool"
  | int _ => "int"
  | long _ => "long"
  | double _ => "double"
  | decimal _ => "decimal"
  | str _ => "string"
  | array _ => "array"
  | object _ => "object"

def items : Stored F → List (Stored F)
  | array items => items
  | _ => []

def fields : Stored F → List (String × Stored F)
  | object fields => fields
  | _ => []

end Stored

/-- The names in the value of `type` or `bsonType`. -/
def named : Json F → List String
  | .str name => [name]
  | .arr names => names.filterMap fun
    | .str name => some name
    | _ => none
  | _ => []

/-- A limit is a passed keyword other than `enum`. -/
def IsLimit (key : String) : Prop := key ∈ passthrough ∧ key ≠ "enum"

instance (key : String) : Decidable (IsLimit key) := inferInstanceAs (Decidable (_ ∧ _))

/-- Whether draft 4 gives the keyword these arguments as well: it takes booleans for the exclusive
bounds and requires at least one name. -/
def SharedArgument (key : String) (value : Json F) : Prop :=
  key ≠ "exclusiveMinimum" ∧ key ≠ "exclusiveMaximum" ∧ (key = "required" → value ≠ .arr [])

/-- Equality with a literal and the limits, as JSON Schema and the server read them. -/
structure Meanings (F : Type) where
  same : Json F → Stored F → Prop
  meets : String → Json F → Stored F → Prop
  mongoMeets : String → Json F → Stored F → Prop
  alike : ∀ key value, IsLimit key → SharedArgument key value →
    ∀ v, mongoMeets key value v ↔ meets key value v

/-- The schema lists the property. -/
def Declares (node : JsonSchema F) (name : String) : Prop :=
  ∃ specs, ("properties", Json.obj specs) ∈ node ∧ name ∈ specs.map Prod.fst

variable (M : Meanings F) (defs : JsonSchema F) (accepts : JsonSchema F → Stored F → Prop)
  (declared : String → Prop)

/-- The keywords of both languages, in a schema that lists the `declared` properties. -/
def SharedHolds (key : String) (value : Json F) (v : Stored F) : Prop :=
  match key, value with
  | "properties", .obj specs =>
    ∀ name spec, (name, .obj spec) ∈ specs → ∀ field, (name, field) ∈ v.fields → accepts spec field
  | "items", .obj spec => ∀ item ∈ v.items, accepts spec item
  | "additionalProperties", .bool allowed =>
    allowed = false → ∀ field ∈ v.fields, declared field.1
  | "additionalProperties", .obj spec =>
    ∀ field ∈ v.fields, ¬ declared field.1 → accepts spec field.2
  | "anyOf", .arr options => ∃ option, .obj option ∈ options ∧ accepts option v
  | "allOf", .arr options => ∀ option, .obj option ∈ options → accepts option v
  | "enum", .arr literals => ∃ literal ∈ literals, M.same literal v
  | _, _ => True

def JsonHolds (key : String) (value : Json F) (v : Stored F) : Prop :=
  if key ∈ annotations then True
  else if key = "$ref" then
    ∀ ref, value = .str ref → ∃ name definition, refName ref = some name ∧
      defs.lookup name = some (.obj definition) ∧ accepts definition v
  else if key = "type" then ∃ name ∈ named value, name ∈ v.jsonTypes
  else if key = "const" then M.same value v
  else if IsLimit key then M.meets key value v
  else SharedHolds M accepts declared key value v

def MongoHolds (key : String) (value : Json F) (v : Stored F) : Prop :=
  if key = "bsonType" then v.bsonAlias ∈ named value
  else if IsLimit key then M.mongoMeets key value v
  else SharedHolds M accepts declared key value v

/-- The relation unfolds as the JSON Schemas over `defs` do. -/
def JsonReading : Prop :=
  ∀ node v, accepts node v ↔
    ∀ entry ∈ node, JsonHolds M defs accepts (Declares node) entry.1 entry.2 v

def MongoReading : Prop :=
  ∀ node v, accepts node v ↔
    ∀ entry ∈ node, MongoHolds M accepts (Declares node) entry.1 entry.2 v

end Readings

section Least
variable {F : Type} {M : Meanings F} {defs : JsonSchema F} {declared : String → Prop} {key : String}
  {value : Json F} {v : Stored F} {accepts others : JsonSchema F → Stored F → Prop}

theorem SharedHolds.mono (weaker : accepts ≤ others)
    (holds : SharedHolds M accepts declared key value v) :
    SharedHolds M others declared key value v := by
  unfold SharedHolds at holds ⊢
  split <;> simp only at holds ⊢
  · intro name spec member field stored
    exact weaker spec field (holds name spec member field stored)
  · intro item member
    exact weaker _ item (holds item member)
  · exact holds
  · intro field member undeclared
    exact weaker _ field.2 (holds field member undeclared)
  · obtain ⟨option, member, accepted⟩ := holds
    exact ⟨option, member, weaker option v accepted⟩
  · intro option member
    exact weaker option v (holds option member)
  · exact holds

theorem JsonHolds.mono (weaker : accepts ≤ others)
    (holds : JsonHolds M defs accepts declared key value v) :
    JsonHolds M defs others declared key value v := by
  unfold JsonHolds at holds ⊢
  split_ifs at holds ⊢
  · intro ref written
    obtain ⟨name, definition, named, known, accepted⟩ := holds ref written
    exact ⟨name, definition, named, known, weaker definition v accepted⟩
  · exact holds
  · exact holds
  · exact holds
  · exact holds.mono weaker

theorem MongoHolds.mono (weaker : accepts ≤ others)
    (holds : MongoHolds M accepts declared key value v) :
    MongoHolds M others declared key value v := by
  unfold MongoHolds at holds ⊢
  split_ifs at holds ⊢
  · exact holds
  · exact holds
  · exact holds.mono weaker

variable (M defs)

/-- One unfolding of the JSON Schemas over `defs`. -/
def jsonStep : (JsonSchema F → Stored F → Prop) →o (JsonSchema F → Stored F → Prop) where
  toFun accepts node v :=
    ∀ entry ∈ node, JsonHolds M defs accepts (Declares node) entry.1 entry.2 v
  monotone' := fun _ _ weaker _ _ holds entry member => (holds entry member).mono weaker

def mongoStep : (JsonSchema F → Stored F → Prop) →o (JsonSchema F → Stored F → Prop) where
  toFun accepts node v :=
    ∀ entry ∈ node, MongoHolds M accepts (Declares node) entry.1 entry.2 v
  monotone' := fun _ _ weaker _ _ holds entry member => (holds entry member).mono weaker

/-- The values that a JSON Schema accepts by finitely many unfoldings. -/
def jsonAccepts : JsonSchema F → Stored F → Prop := (jsonStep M defs).lfp

def mongoAccepts : JsonSchema F → Stored F → Prop := (mongoStep M).lfp

theorem jsonReading_jsonAccepts : JsonReading M defs (jsonAccepts M defs) := by
  intro node v
  have unfolded : jsonStep M defs (jsonAccepts M defs) = jsonAccepts M defs := OrderHom.map_lfp _
  exact (iff_of_eq (congrFun (congrFun unfolded node) v)).symm

theorem mongoReading_mongoAccepts : MongoReading M (mongoAccepts M) := by
  intro node v
  have unfolded : mongoStep M (mongoAccepts M) = mongoAccepts M := OrderHom.map_lfp _
  exact (iff_of_eq (congrFun (congrFun unfolded node) v)).symm

end Least

end Collector.Persistence.Mongo
