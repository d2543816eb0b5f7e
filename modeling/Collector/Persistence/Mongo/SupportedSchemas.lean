import Mathlib.Order.Filter.AtTopBot.Basic
import Mathlib.Order.Filter.Finite
import Collector.Persistence.Mongo.Validators

/-!
The schemas that the conversion supports and what it makes of each of their keywords, given its
answers on the schemas below. The conversion of a supported schema comes to an end: a call goes down
into a schema or unfolds a reference, the stack takes each name of the definitions once, and between
two references the schema gets smaller.
-/

namespace Collector.Persistence.Mongo
open Collector.Lib

section Shape
variable {F : Type}

def schemaOf : Json F → Option (JsonSchema F)
  | .obj node => some node
  | _ => none

/-- The schemas directly below a keyword. -/
def below (key : String) (value : Json F) : List (JsonSchema F) :=
  if key = "properties" then
    match value with
    | .obj specs => specs.filterMap fun spec => schemaOf spec.2
    | _ => []
  else if key = "items" ∨ key = "additionalProperties" then (schemaOf value).toList
  else if key = "anyOf" ∨ key = "allOf" then
    match value with
    | .arr options => options.filterMap schemaOf
    | _ => []
  else []

/-- The supported keywords with the values that a schema gives them, but for `$ref`, `format`, `not`
and `oneOf`. -/
inductive SupportedKeyword : String → Json F → Prop where
  | annotation {key : String} {value : Json F} (note : key ∈ annotations) : SupportedKeyword key value
  | type {name : String} (known : (typeMap.lookup name).isSome) : SupportedKeyword "type" (.str name)
  | union {names : List String} (known : ∀ name ∈ names, (typeMap.lookup name).isSome) :
    SupportedKeyword "type" (.arr (names.map .str))
  | properties (specs : List (String × JsonSchema F)) :
    SupportedKeyword "properties" (.obj (specs.map fun spec => (spec.1, .obj spec.2)))
  | items (spec : JsonSchema F) : SupportedKeyword "items" (.obj spec)
  | closed (allowed : Bool) : SupportedKeyword "additionalProperties" (.bool allowed)
  | additional (spec : JsonSchema F) : SupportedKeyword "additionalProperties" (.obj spec)
  | anyOf (options : List (JsonSchema F)) : SupportedKeyword "anyOf" (.arr (options.map .obj))
  | allOf (options : List (JsonSchema F)) : SupportedKeyword "allOf" (.arr (options.map .obj))
  | const (value : Json F) : SupportedKeyword "const" value
  | enum (literals : List (Json F)) : SupportedKeyword "enum" (.arr literals)
  | limit {key : String} {value : Json F} (limits : IsLimit key) : SupportedKeyword key value

/-- The schema is a reference to the definition. -/
structure Refers (defs node : JsonSchema F) (name : String) (definition : JsonSchema F) : Prop where
  ref : ∃ ref, node.lookup "$ref" = some (.str ref) ∧ refName ref = some name
  known : defs.lookup name = some (.obj definition)

/-- A schema is made of supported keywords, or is a reference with no siblings but annotations. -/
inductive SupportedNode (defs node : JsonSchema F) : Prop where
  | keywords (distinct : (node.map Prod.fst).Nodup)
    (each : ∀ entry ∈ node, SupportedKeyword entry.1 entry.2)
  | reference {name : String} {definition : JsonSchema F} (refers : Refers defs node name definition)
    (distinct : (node.map Prod.fst).Nodup)
    (siblings : ∀ entry ∈ node, entry.1 = "$ref" ∨ entry.1 ∈ annotations)

/-- The schemas that are met below a schema when its references are unfolded. -/
inductive Reaches (defs schema : JsonSchema F) : JsonSchema F → Prop where
  | self : Reaches defs schema schema
  | down {node sub : JsonSchema F} {entry : String × Json F} (reached : Reaches defs schema node)
    (member : entry ∈ node) (under : sub ∈ below entry.1 entry.2) : Reaches defs schema sub
  | unfolded {node definition : JsonSchema F} {name : String} (reached : Reaches defs schema node)
    (refers : Refers defs node name definition) : Reaches defs schema (merged definition node)

/-- A schema made of supported keywords and definitions. -/
def SupportedSchema (defs schema : JsonSchema F) : Prop :=
  ∀ node, Reaches defs schema node → SupportedNode defs node

end Shape

section Total
variable {F : Type} {key : String} {value : Json F}

theorem convertValue_obj (f : JsonSchema F → Except (ConvertError F) (JsonSchema F))
    (spec : JsonSchema F) : convertValue f (.obj spec) = (f spec).map .obj := rfl

/-- The tests that come before the last one in the loop fail on a passed keyword. -/
theorem passed_other (passed : key ∈ passthrough) :
    (key ∉ annotations ∧ key ≠ "format" ∧ key ≠ "$ref") ∧ key ≠ "type" ∧ key ≠ "properties" ∧
      key ≠ "items" ∧ key ≠ "not" ∧ key ≠ "additionalProperties" ∧ key ≠ "anyOf" ∧ key ≠ "oneOf" ∧
      key ≠ "allOf" ∧ key ≠ "const" := by
  have each : ∀ key ∈ passthrough, (key ∉ annotations ∧ key ≠ "format" ∧ key ≠ "$ref") ∧
      key ≠ "type" ∧ key ≠ "properties" ∧ key ≠ "items" ∧ key ≠ "not" ∧
      key ≠ "additionalProperties" ∧ key ≠ "anyOf" ∧ key ≠ "oneOf" ∧ key ≠ "allOf" ∧
      key ≠ "const" := by decide
  exact each key passed

theorem SupportedKeyword.other (supported : SupportedKeyword key value) :
    key ≠ "$ref" ∧ key ≠ "format" := by
  cases supported with
  | annotation note =>
    have each : ∀ key ∈ annotations, key ≠ "$ref" ∧ key ≠ "format" := by decide
    exact each key note
  | limit limits => exact ⟨(passed_other limits.1).1.2.2, (passed_other limits.1).1.2.1⟩
  | _ => decide

/-- The BSON types of some JSON types, in the order in which they are met. -/
def bsonTypes (names : List String) : List String :=
  (names.flatMap fun name => (typeMap.lookup name).getD []).foldl addType []

theorem foldlM_addTypes {names : List String}
    (known : ∀ name ∈ names, (typeMap.lookup name).isSome) (result : List String) :
    (names.map fun name => (.str name : Json F)).foldlM addTypes result =
      .ok ((names.flatMap fun name => (typeMap.lookup name).getD []).foldl addType result) := by
  induction names generalizing result with
  | nil => rfl
  | cons name names ih =>
    obtain ⟨mapped, found⟩ := Option.isSome_iff_exists.mp (known name List.mem_cons_self)
    rw [List.map_cons, List.foldlM_cons, addTypes, mappedType, found, List.flatMap_cons,
      List.foldl_append, found]
    exact ih (fun name member => known name (List.mem_cons_of_mem _ member)) _

theorem bsonType_eq {names : List String} (known : ∀ name ∈ names, (typeMap.lookup name).isSome)
    (here : typeNames value = .ok (names.map .str)) :
    bsonType value = .ok (typeValue (bsonTypes names)) := by
  rw [bsonType, here, Except.bind_eq_ok]
  exact ⟨_, rfl, Except.bind_eq_ok.mpr ⟨_, foldlM_addTypes known [], rfl⟩⟩

section Keywords
variable (f : JsonSchema F → Except (ConvertError F) (JsonSchema F))

theorem keyword_note (note : key ∈ annotations) : keyword f none key value = .ok none := by
  unfold keyword
  rw [if_pos (.inl note)]
  rfl

theorem keyword_type {names : List String} (known : ∀ name ∈ names, (typeMap.lookup name).isSome)
    (here : typeNames value = .ok (names.map .str)) :
    keyword f none "type" value = .ok (some ("bsonType", typeValue (bsonTypes names))) := by
  have mapped := bsonType_eq known here
  simp [keyword, annotations, mapped, bind, Except.bind, pure, Except.pure]

theorem keyword_closed (allowed : Bool) : keyword f none "additionalProperties" (.bool allowed) =
    .ok (some ("additionalProperties", .bool allowed)) := by
  simp [keyword, annotations]
  rfl

theorem keyword_const : keyword f none "const" value = .ok (some ("enum", .arr [value])) := by
  simp [keyword, annotations]
  rfl

theorem keyword_passed (passed : key ∈ passthrough) :
    keyword f none key value = .ok (some (key, value)) := by
  obtain ⟨⟨note, format, -⟩, type, properties, items, negated, additional, any, one, all, const⟩ :=
    passed_other passed
  unfold keyword
  simp [*]
  rfl

theorem keyword_properties (specs : List (String × JsonSchema F)) :
    keyword f none "properties" (.obj (specs.map fun spec => (spec.1, .obj spec.2))) =
      (specs.mapM fun spec => (f spec.2).map fun converted => (spec.1, converted)).map fun converted =>
        some ("properties", .obj (converted.map fun spec => (spec.1, .obj spec.2))) := by
  have wrapped := @Except.mapM_wrapped (ConvertError F) _ _ _ _
    (fun spec : String × JsonSchema F => (f spec.2).map fun converted => (spec.1, converted))
    (fun spec : String × Json F => (convertValue f spec.2).map fun converted => (spec.1, converted))
    (fun spec => (spec.1, .obj spec.2)) (fun spec => (spec.1, .obj spec.2))
    (fun spec => by rw [convertValue_obj]; cases f spec.2 <;> rfl) specs
  simp [keyword, annotations, -List.mapM_map]
  rw [wrapped]
  cases specs.mapM fun spec => (f spec.2).map fun converted => (spec.1, converted) <;> rfl

theorem keyword_options (choice : key = "anyOf" ∨ key = "allOf") (options : List (JsonSchema F)) :
    keyword f none key (.arr (options.map .obj)) =
      (options.mapM f).map fun converted => some (key, .arr (converted.map .obj)) := by
  have wrapped := Except.mapM_wrapped (convertValue_obj f) options
  obtain rfl | rfl := choice
  · simp [keyword, annotations, iterate, bind, Except.bind, -List.mapM_map]
    rw [wrapped]
    cases options.mapM f <;> rfl
  · simp [keyword, annotations, iterate, bind, Except.bind, -List.mapM_map]
    rw [wrapped]
    cases options.mapM f <;> rfl

theorem keyword_single (single : key = "items" ∨ key = "additionalProperties") (spec : JsonSchema F) :
    keyword f none key (.obj spec) = (f spec).map fun converted => some (key, .obj converted) := by
  obtain rfl | rfl := single <;> simp [keyword, annotations, convertValue_obj] <;> cases f spec <;> rfl

end Keywords

/-- What a supported keyword adds depends on the call only through its answers on the schemas below. -/
theorem keyword_ok (supported : SupportedKeyword key value) (g : JsonSchema F → JsonSchema F) :
    ∃ assigned, ∀ f : JsonSchema F → Except (ConvertError F) (JsonSchema F),
      (∀ sub ∈ below key value, f sub = .ok (g sub)) → keyword f none key value = .ok assigned := by
  cases supported with
  | annotation note => exact ⟨none, fun f _ => keyword_note f note⟩
  | @type name known =>
    have each : ∀ other ∈ [name], (typeMap.lookup other).isSome := by simpa using known
    exact ⟨_, fun f _ => keyword_type f each rfl⟩
  | union known => exact ⟨_, fun f _ => keyword_type f known rfl⟩
  | properties specs =>
    have answered (f : JsonSchema F → Except (ConvertError F) (JsonSchema F))
        (answers : ∀ sub ∈ below "properties" (.obj (specs.map fun spec => (spec.1, .obj spec.2))),
          f sub = .ok (g sub)) :
        (specs.mapM fun spec => (f spec.2).map fun converted => (spec.1, converted)) =
          .ok (specs.map fun spec => (spec.1, g spec.2)) := by
      apply Except.mapM_of_ok
      intro spec member
      rw [answers spec.2 (by simp [below, schemaOf]; exact ⟨_, member⟩)]
      rfl
    exact ⟨_, fun f answers => by rw [keyword_properties f, answered f answers]; rfl⟩
  | items spec =>
    exact ⟨_, fun f answers => by
      rw [keyword_single f (.inl rfl), answers spec (by simp [below, schemaOf])]; rfl⟩
  | closed allowed => exact ⟨_, fun f _ => keyword_closed f allowed⟩
  | additional spec =>
    exact ⟨_, fun f answers => by
      rw [keyword_single f (.inr rfl), answers spec (by simp [below, schemaOf])]; rfl⟩
  | anyOf options =>
    exact ⟨_, fun f answers => by
      rw [keyword_options f (.inl rfl), Except.mapM_of_ok fun sub member => answers sub (by
        simpa [below, schemaOf] using member)]
      rfl⟩
  | allOf options =>
    exact ⟨_, fun f answers => by
      rw [keyword_options f (.inr rfl), Except.mapM_of_ok fun sub member => answers sub (by
        simpa [below, schemaOf] using member)]
      rfl⟩
  | const => exact ⟨_, fun f _ => keyword_const f⟩
  | enum literals => exact ⟨_, fun f _ => keyword_passed f (by decide)⟩
  | limit limits => exact ⟨_, fun f _ => keyword_passed f limits.1⟩

end Total

section Calls
variable {F : Type} {defs node : JsonSchema F} {key : String} {value : Json F}

theorem foldlM_convertEntry {f : JsonSchema F → Except (ConvertError F) (JsonSchema F)}
    {assigned : String × Json F → Option (String × Json F)}
    (each : ∀ entry ∈ node, keyword f none entry.1 entry.2 = .ok (assigned entry))
    (out : JsonSchema F) :
    node.foldlM (convertEntry f none) out = .ok ((node.filterMap assigned).foldl Json.setEntry out) := by
  induction node generalizing out with
  | nil => rfl
  | cons entry node ih =>
    have rest := ih fun entry member => each entry (List.mem_cons_of_mem _ member)
    rw [List.foldlM_cons, convertEntry, each entry List.mem_cons_self, List.filterMap_cons]
    cases assigned entry with
    | none => exact rest out
    | some added => exact rest (Json.setEntry out added)

variable {stack : List String} {fuel : Nat}

theorem convert_keywords (each : ∀ entry ∈ node, SupportedKeyword entry.1 entry.2) :
    convert defs (fuel + 1) stack node =
      node.foldlM (convertEntry (convert defs fuel stack) none) [] := by
  have absent (key : String) (other : ∀ entry ∈ node, entry.1 ≠ key) : given node key = none := by
    have missing : node.lookup key = none := by
      rw [List.lookup_eq_none_iff]
      intro entry member
      simpa using (other entry member).symm
    rw [given, missing]
  rw [convert, absent "$ref" fun entry member => (each entry member).other.1]
  simp only [formatType, absent "format" fun entry member => (each entry member).other.2]
  rfl

theorem convert_reference {name : String} {definition : JsonSchema F}
    (refers : Refers defs node name definition) :
    convert defs (fuel + 1) stack node =
      if name ∈ stack then .ok [] else convert defs fuel (stack ++ [name]) (merged definition node) := by
  obtain ⟨ref, written, named⟩ := refers.ref
  have here : given node "$ref" = some (.str ref) := by rw [given, written]
  rw [convert, here]
  simp only [named, refers.known]

theorem sizeOf_schemaOf {spec : JsonSchema F} (here : schemaOf value = some spec) :
    sizeOf spec < sizeOf value := by
  cases value with
  | obj node =>
    obtain rfl := Option.some.inj here
    simp only [Json.obj.sizeOf_spec]
    omega
  | _ => cases here

theorem sizeOf_below {sub : JsonSchema F} (under : sub ∈ below key value) :
    sizeOf sub < sizeOf value := by
  unfold below at under
  split_ifs at under
  · split at under
    · obtain ⟨spec, member, here⟩ := List.mem_filterMap.mp under
      have inner := List.sizeOf_lt_of_mem member
      have smaller := sizeOf_schemaOf here
      obtain ⟨name, spec⟩ := spec
      simp only [Json.obj.sizeOf_spec, Prod.mk.sizeOf_spec] at *
      omega
    · cases under
  · exact sizeOf_schemaOf (by simpa using under)
  · split at under
    · obtain ⟨option, member, here⟩ := List.mem_filterMap.mp under
      have inner := List.sizeOf_lt_of_mem member
      have smaller := sizeOf_schemaOf here
      simp only [Json.arr.sizeOf_spec] at *
      omega
    · cases under
  · cases under

theorem sizeOf_entry {entry : String × Json F} {sub : JsonSchema F} (member : entry ∈ node)
    (under : sub ∈ below entry.1 entry.2) : sizeOf sub < sizeOf node := by
  have inner := List.sizeOf_lt_of_mem member
  have smaller := sizeOf_below under
  obtain ⟨key, value⟩ := entry
  simp only [Prod.mk.sizeOf_spec] at *
  omega

end Calls

section Termination
open Filter
variable {F : Type} {defs schema node : JsonSchema F} {stack : List String}

/-- The conversion ends with `out` as soon as enough nested calls are allowed. -/
def ConvertsTo (defs : JsonSchema F) (stack : List String) (node out : JsonSchema F) : Prop :=
  ∀ᶠ fuel in atTop, convert defs fuel stack node = .ok out

/-- The names of definitions that the stack does not hold yet. -/
def namesLeft (defs : JsonSchema F) (stack : List String) : Finset String :=
  (defs.map Prod.fst).toFinset \ stack.toFinset

theorem card_namesLeft_append {name : String} {definition : Json F} (fresh : name ∉ stack)
    (known : defs.lookup name = some definition) :
    (namesLeft defs (stack ++ [name])).card < (namesLeft defs stack).card := by
  have fewer : namesLeft defs (stack ++ [name]) = (namesLeft defs stack).erase name := by
    ext other
    simp only [namesLeft, List.toFinset_append, List.toFinset_cons, List.toFinset_nil, Finset.mem_sdiff,
      Finset.mem_erase, Finset.mem_union, List.mem_toFinset, Finset.mem_insert]
    simp only [Finset.notMem_empty, or_false, not_or]
    tauto
  have member : name ∈ (defs.map Prod.fst).toFinset := by
    obtain ⟨before, after, split, -⟩ := List.lookup_eq_some_iff.mp known
    simp [split]
  rw [fewer]
  exact Finset.card_erase_lt_of_mem (Finset.mem_sdiff.mpr ⟨member, by simpa using fresh⟩)

theorem ConvertsTo.succ {out : JsonSchema F} {P : Nat → Prop} (answered : ∀ᶠ fuel in atTop, P fuel)
    (next : ∀ fuel, P fuel → convert defs (fuel + 1) stack node = .ok out) :
    ConvertsTo defs stack node out := by
  obtain ⟨least, each⟩ := eventually_atTop.mp answered
  refine eventually_atTop.mpr ⟨least + 1, fun fuel enough => ?_⟩
  obtain ⟨fuel, rfl⟩ : ∃ before, fuel = before + 1 := ⟨fuel - 1, by omega⟩
  exact next fuel (each fuel (by omega))

/-- A schema of keywords is converted once the schemas below it are. -/
theorem exists_convertsTo_of_below (each : ∀ entry ∈ node, SupportedKeyword entry.1 entry.2)
    (inner : ∀ entry ∈ node, ∀ sub ∈ below entry.1 entry.2, ∃ out, ConvertsTo defs stack sub out) :
    ∃ out, ConvertsTo defs stack node out := by
  classical
  let subs := node.flatMap fun entry => below entry.1 entry.2
  have converted : ∀ sub, ∃ out, sub ∈ subs → ConvertsTo defs stack sub out := by
    intro sub
    by_cases member : sub ∈ subs
    · obtain ⟨entry, here, under⟩ := List.mem_flatMap.mp member
      obtain ⟨out, ends⟩ := inner entry here sub under
      exact ⟨out, fun _ => ends⟩
    · exact ⟨[], fun here => absurd here member⟩
  choose answer ends using converted
  have total : ∀ entry : String × Json F, ∃ assigned, entry ∈ node →
      ∀ f : JsonSchema F → Except (ConvertError F) (JsonSchema F),
        (∀ sub ∈ below entry.1 entry.2, f sub = .ok (answer sub)) →
          keyword f none entry.1 entry.2 = .ok assigned := by
    intro entry
    by_cases member : entry ∈ node
    · obtain ⟨assigned, adds⟩ := keyword_ok (each entry member) answer
      exact ⟨assigned, fun _ => adds⟩
    · exact ⟨none, fun here => absurd here member⟩
  choose assigned adds using total
  have together : ∀ᶠ fuel in atTop, ∀ sub ∈ subs, convert defs fuel stack sub = .ok (answer sub) :=
    (eventually_all_finite (List.finite_toSet subs)).mpr ends
  refine ⟨(node.filterMap assigned).foldl Json.setEntry [], ConvertsTo.succ together ?_⟩
  intro fuel answers
  rw [convert_keywords each]
  apply foldlM_convertEntry
  intro entry member
  exact adds entry member _ fun sub under => answers sub (List.mem_flatMap.mpr ⟨entry, member, under⟩)

/-- The induction is on the names left and, between two references, on the size of the schema. -/
theorem exists_convertsTo (supported : SupportedSchema defs schema) (reached : Reaches defs schema node) :
    ∃ out, ConvertsTo defs stack node out := by
  induction left : (namesLeft defs stack).card using Nat.strong_induction_on generalizing stack node with
  | _ left fewer =>
    induction size : sizeOf node using Nat.strong_induction_on generalizing node with
    | _ size smaller =>
      cases supported node reached with
      | keywords distinct each =>
        apply exists_convertsTo_of_below each
        intro entry member sub under
        have shrinks := sizeOf_entry member under
        exact smaller _ (size ▸ shrinks) (reached.down member under) rfl
      | @reference name definition refers distinct siblings =>
        by_cases known : name ∈ stack
        · refine ⟨[], ConvertsTo.succ (P := fun _ => True) (Eventually.of_forall fun _ => trivial) ?_⟩
          intro fuel _
          rw [convert_reference refers, if_pos known]
        · have shrinks := card_namesLeft_append known refers.known
          obtain ⟨out, ends⟩ := fewer _ (left ▸ shrinks) (reached.unfolded refers) rfl
          refine ⟨out, ConvertsTo.succ ends fun fuel answered => ?_⟩
          rw [convert_reference refers, if_neg known, answered]

end Termination

end Collector.Persistence.Mongo
