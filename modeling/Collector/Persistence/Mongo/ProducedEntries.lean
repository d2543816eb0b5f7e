import Collector.Lib.Pairing
import Collector.Persistence.Mongo.SupportedSchemas

/-!
What the loop makes of a schema. Each keyword adds one entry that holds of the same values if the schemas
below it do, and an entry is lost only to a later one that is written under the same name.
-/

namespace Collector.Persistence.Mongo
open Collector.Lib

section Types
variable {F : Type}

theorem named_typeValue (types : List String) : named (typeValue types : Json F) = types := by
  match types with
  | [] => rfl
  | [bson] => rfl
  | first :: second :: others =>
    simp only [typeValue, named, List.filterMap_map, Function.comp_def, List.filterMap_some]

theorem mem_foldl_addType (types result : List String) (bson : String) :
    bson ∈ types.foldl addType result ↔ bson ∈ result ∨ bson ∈ types := by
  induction types generalizing result with
  | nil => simp
  | cons type types ih =>
    rw [List.foldl_cons, ih, addType]
    split
    · rename_i known
      grind
    · simp [or_assoc]

/-- The two languages name the type of a value by the same table. -/
theorem mem_typeMap (v : Stored F) (name : String) :
    v.bsonAlias ∈ (typeMap.lookup name).getD [] ↔ name ∈ v.jsonTypes := by
  have rows : ∀ row ∈ typeMap, (v.bsonAlias ∈ row.2 ↔ row.1 ∈ v.jsonTypes) := by
    cases v <;> simp only [Stored.bsonAlias, Stored.jsonTypes] <;> decide
  cases found : typeMap.lookup name with
  | none =>
    have unknown : ∀ row ∈ typeMap, name ≠ row.1 := by
      simpa using List.lookup_eq_none_iff.mp found
    have listed : ∀ type ∈ v.jsonTypes, type ∈ typeMap.map Prod.fst := by
      cases v <;> simp only [Stored.jsonTypes] <;> decide
    simp only [Option.getD_none, List.not_mem_nil, false_iff]
    intro member
    obtain ⟨row, here, same⟩ := List.mem_map.mp (listed name member)
    exact unknown row here same.symm
  | some types =>
    obtain ⟨before, after, split, -⟩ := List.lookup_eq_some_iff.mp found
    exact rows (name, types) (by rw [split]; simp)

theorem bsonAlias_mem_bsonTypes (names : List String) (v : Stored F) :
    v.bsonAlias ∈ named (typeValue (bsonTypes names) : Json F) ↔ ∃ name ∈ names, name ∈ v.jsonTypes := by
  rw [named_typeValue, bsonTypes, mem_foldl_addType]
  simp only [List.not_mem_nil, false_or, List.mem_flatMap, mem_typeMap]

end Types

section Keywords
variable {F : Type} {M : Meanings F} {defs node out : JsonSchema F} {key added : String}
  {value produced : Json F} {v : Stored F} {declared : String → Prop}
  {accepts others : JsonSchema F → Stored F → Prop} {rel : JsonSchema F → JsonSchema F → Prop}

/-- The keywords that go into the output under their own name, with related schemas below them. -/
inductive Carries (rel : JsonSchema F → JsonSchema F → Prop) : String → Json F → Json F → Prop where
  | properties {specs converted : List (String × JsonSchema F)}
    (each : List.Forall₂ (fun spec new => spec.1 = new.1 ∧ rel spec.2 new.2) specs converted) :
    Carries rel "properties" (.obj (specs.map fun spec => (spec.1, .obj spec.2)))
      (.obj (converted.map fun spec => (spec.1, .obj spec.2)))
  | items {spec converted : JsonSchema F} (related : rel spec converted) :
    Carries rel "items" (.obj spec) (.obj converted)
  | closed (allowed : Bool) : Carries rel "additionalProperties" (.bool allowed) (.bool allowed)
  | additional {spec converted : JsonSchema F} (related : rel spec converted) :
    Carries rel "additionalProperties" (.obj spec) (.obj converted)
  | anyOf {options converted : List (JsonSchema F)} (each : List.Forall₂ rel options converted) :
    Carries rel "anyOf" (.arr (options.map .obj)) (.arr (converted.map .obj))
  | allOf {options converted : List (JsonSchema F)} (each : List.Forall₂ rel options converted) :
    Carries rel "allOf" (.arr (options.map .obj)) (.arr (converted.map .obj))
  | enum (literals : List (Json F)) : Carries rel "enum" (.arr literals) (.arr literals)

theorem Carries.flip (carries : Carries rel key value produced) :
    Carries (fun new old => rel old new) key produced value := by
  cases carries with
  | properties each => exact .properties (each.flip.imp fun _ _ both => ⟨both.1.symm, both.2⟩)
  | items related => exact .items related
  | closed allowed => exact .closed allowed
  | additional related => exact .additional related
  | anyOf each => exact .anyOf each.flip
  | allOf each => exact .allOf each.flip
  | enum literals => exact .enum literals

/-- What holds below the one holds below the other, so the keyword holds of the other too. -/
theorem Carries.holds (carries : Carries rel key value produced)
    (weaker : ∀ old new, rel old new → ∀ v, accepts old v → others new v)
    (holds : SharedHolds M accepts declared key value v) :
    SharedHolds M others declared key produced v := by
  cases carries with
  | properties each =>
    intro name new member field stored
    obtain ⟨spec, here, same⟩ := List.mem_map.mp member
    obtain ⟨rfl, rfl⟩ : spec.1 = name ∧ spec.2 = new := by simpa using same
    obtain ⟨old, there, listed, related⟩ := forall₂_of_mem_right each here
    have accepted := holds spec.1 old.2 (List.mem_map.mpr ⟨old, there, by rw [listed]⟩) field stored
    exact weaker _ _ related field accepted
  | items related => exact fun item member => weaker _ _ related item (holds item member)
  | closed allowed => exact holds
  | additional related =>
    exact fun field member undeclared => weaker _ _ related field.2 (holds field member undeclared)
  | @anyOf options converted each =>
    obtain ⟨option, member, accepted⟩ := holds
    have here : option ∈ options := by simpa using member
    obtain ⟨new, there, related⟩ := forall₂_of_mem_right each.flip here
    exact ⟨new, List.mem_map.mpr ⟨new, there, rfl⟩, weaker _ _ related v accepted⟩
  | @allOf options converted each =>
    intro option member
    have here : option ∈ converted := by simpa using member
    obtain ⟨old, there, related⟩ := forall₂_of_mem_right each here
    exact weaker _ _ related v (holds old (List.mem_map.mpr ⟨old, there, rfl⟩))
  | enum literals => exact holds

/-- A keyword that goes into the output, under whatever name. -/
inductive Adds (rel : JsonSchema F → JsonSchema F → Prop) :
    String → Json F → Option (String × Json F) → Prop where
  | note {key : String} {value : Json F} (note : key ∈ annotations) : Adds rel key value none
  | type {value : Json F} {names : List String} (here : named value = names) :
    Adds rel "type" value (some ("bsonType", typeValue (bsonTypes names)))
  | const (value : Json F) : Adds rel "const" value (some ("enum", .arr [value]))
  | limit {key : String} {value : Json F} (limits : IsLimit key) : Adds rel key value (some (key, value))
  | carried {key : String} {value produced : Json F} (carries : Carries rel key value produced) :
    Adds rel key value (some (key, produced))

/-- What the call makes of a supported keyword. -/
theorem keyword_adds {f : JsonSchema F → Except (ConvertError F) (JsonSchema F)}
    {assigned : Option (String × Json F)} (supported : SupportedKeyword key value)
    (answered : keyword f none key value = .ok assigned) :
    Adds (fun spec converted => spec ∈ below key value ∧ f spec = .ok converted) key value assigned := by
  cases supported with
  | annotation note =>
    rw [keyword_note f note] at answered
    cases answered
    exact .note note
  | @type name known =>
    have each : ∀ other ∈ [name], (typeMap.lookup other).isSome := by simpa using known
    rw [keyword_type f each rfl] at answered
    cases answered
    exact .type rfl
  | @union names known =>
    rw [keyword_type f known rfl] at answered
    cases answered
    exact .type (by simp only [named, List.filterMap_map, Function.comp_def, List.filterMap_some])
  | properties specs =>
    rw [keyword_properties f, Except.map_eq_ok] at answered
    obtain ⟨converted, mapped, rfl⟩ := answered
    refine .carried (.properties ((Except.forall₂_of_mapM mapped).imp ?_))
    rintro spec new ⟨member, called⟩
    obtain ⟨answer, here, rfl⟩ := Except.map_eq_ok.mp called
    exact ⟨rfl, by simp [below, schemaOf]; exact ⟨_, member⟩, here⟩
  | items spec =>
    rw [keyword_single f (.inl rfl), Except.map_eq_ok] at answered
    obtain ⟨converted, here, rfl⟩ := answered
    exact .carried (.items ⟨by simp [below, schemaOf], here⟩)
  | closed allowed =>
    rw [keyword_closed f] at answered
    cases answered
    exact .carried (.closed allowed)
  | additional spec =>
    rw [keyword_single f (.inr rfl), Except.map_eq_ok] at answered
    obtain ⟨converted, here, rfl⟩ := answered
    exact .carried (.additional ⟨by simp [below, schemaOf], here⟩)
  | anyOf options =>
    rw [keyword_options f (.inl rfl), Except.map_eq_ok] at answered
    obtain ⟨converted, mapped, rfl⟩ := answered
    refine .carried (.anyOf ((Except.forall₂_of_mapM mapped).imp ?_))
    rintro option new ⟨member, here⟩
    exact ⟨by simpa [below, schemaOf] using member, here⟩
  | allOf options =>
    rw [keyword_options f (.inr rfl), Except.map_eq_ok] at answered
    obtain ⟨converted, mapped, rfl⟩ := answered
    refine .carried (.allOf ((Except.forall₂_of_mapM mapped).imp ?_))
    rintro option new ⟨member, here⟩
    exact ⟨by simpa [below, schemaOf] using member, here⟩
  | const =>
    rw [keyword_const f] at answered
    cases answered
    exact .const _
  | enum literals =>
    rw [keyword_passed f (by decide)] at answered
    cases answered
    exact .carried (.enum literals)
  | limit limits =>
    rw [keyword_passed f limits.1] at answered
    cases answered
    exact .limit limits

theorem Carries.notLimit (carries : Carries rel key value produced) :
    (key ∉ annotations ∧ key ≠ "$ref" ∧ key ≠ "type" ∧ key ≠ "const" ∧ ¬ IsLimit key) ∧
      key ≠ "bsonType" := by
  cases carries <;> decide

theorem jsonHolds_carried (carries : Carries rel key value produced) :
    JsonHolds M defs accepts declared key value v ↔ SharedHolds M accepts declared key value v := by
  obtain ⟨⟨note, ref, type, const, limit⟩, -⟩ := carries.notLimit
  rw [JsonHolds, if_neg note, if_neg ref, if_neg type, if_neg const, if_neg limit]

theorem mongoHolds_carried (carries : Carries rel key value produced) :
    MongoHolds M accepts declared key produced v ↔ SharedHolds M accepts declared key produced v := by
  obtain ⟨⟨-, -, -, -, limit⟩, bson⟩ := carries.notLimit
  rw [MongoHolds, if_neg bson, if_neg limit]

theorem jsonHolds_type : JsonHolds M defs accepts declared "type" value v ↔
    ∃ name ∈ named value, name ∈ v.jsonTypes := by
  rw [JsonHolds, if_neg (by decide), if_neg (by decide), if_pos rfl]

theorem mongoHolds_bsonType : MongoHolds M accepts declared "bsonType" produced v ↔
    v.bsonAlias ∈ named produced := by
  rw [MongoHolds, if_pos rfl]

theorem jsonHolds_const : JsonHolds M defs accepts declared "const" value v ↔ M.same value v := by
  rw [JsonHolds, if_neg (by decide), if_neg (by decide), if_neg (by decide), if_pos rfl]

theorem mongoHolds_enum (literals : List (Json F)) :
    MongoHolds M accepts declared "enum" (.arr literals) v ↔ ∃ literal ∈ literals, M.same literal v := by
  rw [MongoHolds, if_neg (by decide), if_neg (by decide)]
  exact Iff.rfl

theorem jsonHolds_limit (limits : IsLimit key) :
    JsonHolds M defs accepts declared key value v ↔ M.meets key value v := by
  obtain ⟨⟨note, -, ref⟩, type, -, -, -, -, -, -, -, const⟩ := passed_other limits.1
  rw [JsonHolds, if_neg note, if_neg ref, if_neg type, if_neg const, if_pos limits]

theorem mongoHolds_limit (limits : IsLimit key) :
    MongoHolds M accepts declared key value v ↔ M.mongoMeets key value v := by
  have other : key ≠ "bsonType" := by
    have each : ∀ key ∈ passthrough, key ≠ "bsonType" := by decide
    exact each key limits.1
  rw [MongoHolds, if_neg other, if_pos limits]

/-- An entry of the output holds of what its keyword holds of. -/
theorem Adds.sound (adds : Adds rel key value (some (added, produced)))
    (shared : IsLimit key → SharedArgument key value)
    (weaker : ∀ old new, rel old new → ∀ v, accepts old v → others new v)
    (holds : JsonHolds M defs accepts declared key value v) :
    MongoHolds M others declared added produced v := by
  cases adds with
  | @type _ names here =>
    rw [mongoHolds_bsonType, bsonAlias_mem_bsonTypes, ← here]
    exact jsonHolds_type.mp holds
  | const =>
    rw [mongoHolds_enum]
    exact ⟨value, List.mem_singleton.mpr rfl, jsonHolds_const.mp holds⟩
  | limit limits =>
    rw [mongoHolds_limit limits, M.alike key value limits (shared limits) v]
    exact (jsonHolds_limit limits).mp holds
  | carried carries =>
    exact (mongoHolds_carried carries).mpr (carries.holds weaker ((jsonHolds_carried carries).mp holds))

/-- A keyword holds of what its entry of the output holds of. -/
theorem Adds.exact (adds : Adds rel key value (some (added, produced)))
    (shared : IsLimit key → SharedArgument key value)
    (stronger : ∀ old new, rel old new → ∀ v, others new v → accepts old v)
    (holds : MongoHolds M others declared added produced v) :
    JsonHolds M defs accepts declared key value v := by
  cases adds with
  | @type _ names here =>
    rw [mongoHolds_bsonType, bsonAlias_mem_bsonTypes, ← here] at holds
    exact jsonHolds_type.mpr holds
  | const =>
    obtain ⟨literal, member, same⟩ := (mongoHolds_enum _).mp holds
    obtain rfl := List.mem_singleton.mp member
    exact jsonHolds_const.mpr same
  | limit limits =>
    rw [mongoHolds_limit limits, M.alike key value limits (shared limits) v] at holds
    exact (jsonHolds_limit limits).mpr holds
  | carried carries =>
    have back := carries.flip.holds (fun new old related => stronger old new related)
      ((mongoHolds_carried carries).mp holds)
    exact (jsonHolds_carried carries).mpr back

theorem Carries.sameNames (carries : Carries rel key value produced) (same : key = "properties")
    (name : String) : (∃ specs, value = .obj specs ∧ name ∈ specs.map Prod.fst) ↔
      ∃ specs, produced = .obj specs ∧ name ∈ specs.map Prod.fst := by
  cases carries with
  | @properties specs converted each =>
    have names : specs.map Prod.fst = converted.map Prod.fst := by
      induction each with
      | nil => rfl
      | cons related _ ih => rw [List.map_cons, List.map_cons, related.1, ih]
    simp only [Json.obj.injEq, exists_eq_left', List.map_map, Function.comp_def]
    exact iff_of_eq (congrArg (name ∈ ·) names)
  | _ => exact absurd same (by decide)

theorem Adds.properties (adds : Adds rel key value (some (added, produced)))
    (same : added = "properties") (name : String) :
    key = "properties" ∧ ((∃ specs, value = .obj specs ∧ name ∈ specs.map Prod.fst) ↔
      ∃ specs, produced = .obj specs ∧ name ∈ specs.map Prod.fst) := by
  cases adds with
  | limit limits => exact absurd (same ▸ limits) (by decide)
  | carried carries => exact ⟨same, carries.sameNames same name⟩
  | _ => exact absurd same (by decide)

theorem Adds.note_of_none (adds : Adds rel key value none) : key ∈ annotations := by
  cases adds with
  | note note => exact note

/-- The name under which a keyword goes into the output. -/
def outKey (key : String) : String :=
  if key = "type" then "bsonType" else if key = "const" then "enum" else key

theorem Adds.added_eq (adds : Adds rel key value (some (added, produced))) :
    added = outKey key ∧ key ≠ "bsonType" := by
  cases adds with
  | type here => decide
  | const => decide
  | limit limits =>
    obtain ⟨-, type, -, -, -, -, -, -, -, const⟩ := passed_other limits.1
    have each : ∀ key ∈ passthrough, key ≠ "bsonType" := by decide
    exact ⟨by rw [outKey, if_neg type, if_neg const], each key limits.1⟩
  | carried carries =>
    obtain ⟨⟨-, -, type, const, -⟩, bson⟩ := carries.notLimit
    exact ⟨by rw [outKey, if_neg type, if_neg const], bson⟩

/-- Only `enum` and `const` go into the output under one name. -/
theorem outKey_ne {other : String} (different : key ≠ other) (first : key ≠ "bsonType")
    (second : other ≠ "bsonType")
    (literal : ¬ ((key = "enum" ∨ key = "const") ∧ (other = "enum" ∨ other = "const"))) :
    outKey key ≠ outKey other := by
  unfold outKey
  split_ifs <;> grind

end Keywords

section Output
variable {F : Type} {node out : JsonSchema F} {rel : String × Json F → JsonSchema F → JsonSchema F → Prop}
  {assigned : String × Json F → Option (String × Json F)}
  {f : JsonSchema F → Except (ConvertError F) (JsonSchema F)}

theorem keyword_of_foldlM {entries : JsonSchema F} (folded : node.foldlM (convertEntry f none) entries = .ok out) :
    ∀ entry ∈ node, ∃ assigned, keyword f none entry.1 entry.2 = .ok assigned := by
  induction node generalizing entries with
  | nil => simp
  | cons first node ih =>
    rw [List.foldlM_cons, Except.bind_eq_ok] at folded
    obtain ⟨next, one, rest⟩ := folded
    obtain ⟨assigned, here, -⟩ := Except.bind_eq_ok.mp one
    intro entry member
    rcases List.mem_cons.mp member with rfl | later
    · exact ⟨assigned, here⟩
    · exact ih rest entry later

/-- The output of the loop over a supported schema. -/
structure Produced (rel : String × Json F → JsonSchema F → JsonSchema F → Prop) (node out : JsonSchema F)
    (assigned : String × Json F → Option (String × Json F)) : Prop where
  adds : ∀ entry ∈ node, Adds (rel entry) entry.1 entry.2 (assigned entry)
  entries : out = (node.filterMap assigned).foldl Json.setEntry []

theorem exists_produced (each : ∀ entry ∈ node, SupportedKeyword entry.1 entry.2)
    (folded : node.foldlM (convertEntry f none) [] = .ok out) :
    ∃ assigned, Produced (fun entry spec converted =>
      spec ∈ below entry.1 entry.2 ∧ f spec = .ok converted) node out assigned := by
  have total : ∀ entry, ∃ assigned, entry ∈ node → keyword f none entry.1 entry.2 = .ok assigned := by
    intro entry
    by_cases member : entry ∈ node
    · obtain ⟨assigned, here⟩ := keyword_of_foldlM folded entry member
      exact ⟨assigned, fun _ => here⟩
    · exact ⟨none, fun here => absurd here member⟩
  choose assigned answered using total
  refine ⟨assigned, fun entry member => ?_, ?_⟩
  · exact keyword_adds (each entry member) (answered entry member)
  · rw [foldlM_convertEntry answered] at folded
    exact (Except.ok.inj folded).symm

namespace Produced

theorem exists_of_mem (produced : Produced rel node out assigned) {added : String × Json F}
    (member : added ∈ out) : ∃ entry ∈ node, assigned entry = some added := by
  rw [produced.entries] at member
  rcases Json.mem_of_mem_foldl_setEntry member with old | new
  · cases old
  · exact List.mem_filterMap.mp new

/-- An entry is in the output unless a later one has its name. -/
theorem mem (produced : Produced rel node out assigned) {front back : JsonSchema F}
    {entry added : String × Json F} (split : node = front ++ entry :: back)
    (here : assigned entry = some added)
    (last : ∀ other ∈ back, ∀ after, assigned other = some after → added.1 ≠ after.1) : added ∈ out := by
  rw [produced.entries, split, List.filterMap_append, List.filterMap_cons, here, List.foldl_append,
    List.foldl_cons, Json.mem_foldl_setEntry_of_ne]
  · exact Json.mem_setEntry_self
  · intro after member
    obtain ⟨other, there, adds⟩ := List.mem_filterMap.mp member
    exact last other there after adds

/-- A keyword keeps its place unless it and a later one are the two that share a name. -/
theorem mem_of_last (produced : Produced rel node out assigned) (distinct : (node.map Prod.fst).Nodup)
    {front back : JsonSchema F} {entry added : String × Json F} (split : node = front ++ entry :: back)
    (here : assigned entry = some added)
    (apart : ∀ other ∈ back, ¬ ((entry.1 = "enum" ∨ entry.1 = "const") ∧
      (other.1 = "enum" ∨ other.1 = "const"))) : added ∈ out := by
  apply produced.mem split here
  intro other later after there
  have first := produced.adds entry (by simp [split])
  have second := produced.adds other (by simp [split, later])
  rw [here] at first
  rw [there] at second
  rw [split, List.map_append, List.map_cons] at distinct
  have different : entry.1 ≠ other.1 := by
    intro same
    have fresh := (List.nodup_cons.mp (List.nodup_append.mp distinct).2.1).1
    exact fresh (same ▸ List.mem_map_of_mem later)
  rw [first.added_eq.1, second.added_eq.1]
  exact outKey_ne different first.added_eq.2 second.added_eq.2 (apart other later)

theorem mem_of_single (produced : Produced rel node out assigned)
    (distinct : (node.map Prod.fst).Nodup) {entry added : String × Json F} (member : entry ∈ node)
    (here : assigned entry = some added) (single : ¬ (entry.1 = "enum" ∨ entry.1 = "const")) :
    added ∈ out := by
  obtain ⟨front, back, split⟩ := List.append_of_mem member
  exact produced.mem_of_last distinct split here fun other _ both => single both.1

theorem declares (produced : Produced rel node out assigned) (distinct : (node.map Prod.fst).Nodup) :
    Declares out = Declares node := by
  funext name
  apply propext
  constructor
  · rintro ⟨specs, member, listed⟩
    obtain ⟨entry, here, adds⟩ := produced.exists_of_mem member
    have added := produced.adds entry here
    rw [adds] at added
    obtain ⟨same, names⟩ := added.properties rfl name
    obtain ⟨others, value, known⟩ := names.mpr ⟨specs, rfl, listed⟩
    exact ⟨others, by rw [← same, ← value]; exact here, known⟩
  · rintro ⟨specs, member, listed⟩
    have added := produced.adds _ member
    cases assigns : assigned ("properties", Json.obj specs) with
    | none =>
      rw [assigns] at added
      have noted : "properties" ∈ annotations := added.note_of_none
      exact absurd noted (by decide)
    | some entry =>
      obtain ⟨key, value⟩ := entry
      rw [assigns] at added
      have same : key = "properties" := added.added_eq.1
      subst same
      obtain ⟨others, value, known⟩ := (added.properties rfl name).2.mp ⟨specs, rfl, listed⟩
      have single : ¬ ("properties" = "enum" ∨ "properties" = "const") := by decide
      have kept := produced.mem_of_single distinct member assigns single
      exact ⟨others, value ▸ kept, known⟩

end Produced
end Output

end Collector.Persistence.Mongo
