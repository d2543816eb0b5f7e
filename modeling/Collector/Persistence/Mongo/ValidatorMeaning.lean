import Collector.Persistence.Mongo.ProducedEntries

/-!
What the produced `$jsonSchema` accepts. A reference that is cut becomes the schema of all values, which
only weakens the schemas above it, so every value of the JSON Schema is accepted. Without recursive
references nothing is cut, and the two accept the same values as long as no `enum` or `const` gives way
to a wider one of the same schema.
-/

namespace Collector.Persistence.Mongo
open Collector.Lib

section Conditions
variable {F : Type} (M : Meanings F) (defs schema : JsonSchema F)

/-- All limits below the schema have arguments that draft 4 takes. -/
def SharedLimits : Prop :=
  ∀ node, Reaches defs schema node → ∀ entry ∈ node, IsLimit entry.1 → SharedArgument entry.1 entry.2

/-- A definition is met again below a reference to it. -/
def Recursive : Prop :=
  ∃ outer inner name definition again, Reaches defs schema outer ∧ Refers defs outer name definition ∧
    Reaches defs (merged definition outer) inner ∧ Refers defs inner name again

/-- The literals of `enum` or `const`. -/
def literalsOf (entry : String × Json F) : Option (List (Json F)) :=
  if entry.1 = "const" then some [entry.2]
  else if entry.1 = "enum" then
    match entry.2 with
    | .arr literals => some literals
    | _ => none
  else none

/-- Of `enum` and `const` in one schema the later one admits no more than the earlier one. Both are written
as `enum`, so the later one is what is left: `const: 1` before `enum: [1, 2]` comes to `enum: [1, 2]`. -/
def Narrowing (node : JsonSchema F) : Prop :=
  ∀ front last back earlier before after, node = front ++ last :: back → earlier ∈ front →
    literalsOf earlier = some before → literalsOf last = some after →
      ∀ v, (∃ literal ∈ after, M.same literal v) → ∃ literal ∈ before, M.same literal v

end Conditions

section Meaning
variable {F : Type} {M : Meanings F} {defs schema node definition : JsonSchema F} {name : String}
  {accepts mongo : JsonSchema F → Stored F → Prop} {v : Stored F}

theorem JsonReading.congr (reads : JsonReading M defs accepts) {one other : JsonSchema F}
    (same : ∀ entry, entry.1 ∉ annotations → (entry ∈ one ↔ entry ∈ other)) :
    accepts one v ↔ accepts other v := by
  have declared : Declares one = Declares other := by
    funext name
    simp only [Declares, same (_, _) (show "properties" ∉ annotations by decide)]
  rw [reads, reads, declared]
  constructor
  · intro holds entry member
    by_cases note : entry.1 ∈ annotations
    · rw [JsonHolds, if_pos note]
      trivial
    · exact holds entry ((same entry note).mpr member)
  · intro holds entry member
    by_cases note : entry.1 ∈ annotations
    · rw [JsonHolds, if_pos note]
      trivial
    · exact holds entry ((same entry note).mp member)

/-- Annotations beside a reference say nothing of a value. -/
theorem JsonReading.merged (reads : JsonReading M defs accepts)
    (siblings : ∀ entry ∈ node, entry.1 = "$ref" ∨ entry.1 ∈ annotations) :
    accepts (merged definition node) v ↔ accepts definition v := by
  apply reads.congr
  intro entry note
  apply Json.mem_foldl_setEntry_of_ne
  intro sibling member
  obtain ⟨here, other⟩ := List.mem_filter.mp member
  rcases siblings sibling here with ref | noted
  · simp [ref] at other
  · exact fun same => note (same ▸ noted)

theorem JsonReading.reference (reads : JsonReading M defs accepts)
    (refers : Refers defs node name definition) (distinct : (node.map Prod.fst).Nodup)
    (siblings : ∀ entry ∈ node, entry.1 = "$ref" ∨ entry.1 ∈ annotations) :
    accepts node v ↔ accepts definition v := by
  obtain ⟨ref, written, named⟩ := refers.ref
  have here : ("$ref", Json.str ref) ∈ node := by
    obtain ⟨front, back, split, -⟩ := List.lookup_eq_some_iff.mp written
    rw [split]
    simp
  have note : "$ref" ∉ annotations := by decide
  rw [reads]
  constructor
  · intro holds
    have one := holds _ here
    rw [JsonHolds, if_neg note, if_pos rfl] at one
    obtain ⟨other, found, other_named, known, accepted⟩ := one ref rfl
    rw [named] at other_named
    cases other_named
    rw [refers.known] at known
    cases known
    exact accepted
  · intro accepted entry member
    rcases siblings entry member with same | noted
    · have only : entry = ("$ref", Json.str ref) := List.inj_on_of_nodup_map distinct member here same
      rw [only, JsonHolds, if_neg note, if_pos rfl]
      intro text written
      cases written
      exact ⟨name, definition, named, refers.known, accepted⟩
    · rw [JsonHolds, if_pos noted]
      trivial

/-- The induction is on the nested calls. -/
theorem convert_sound (supported : SupportedSchema defs schema) (shared : SharedLimits defs schema)
    (reads : JsonReading M defs accepts) (mongoReads : MongoReading M mongo) (fuel : Nat) :
    ∀ {stack : List String} {node out : JsonSchema F}, Reaches defs schema node →
      convert defs fuel stack node = .ok out → ∀ v, accepts node v → mongo out v := by
  induction fuel with
  | zero =>
    intro stack node out _ converted
    cases converted
  | succ fuel ih =>
    intro stack node out reached converted v accepted
    cases supported node reached with
    | keywords distinct each =>
      rw [convert_keywords each] at converted
      obtain ⟨assigned, produced⟩ := exists_produced each converted
      rw [mongoReads, produced.declares distinct]
      intro added member
      obtain ⟨entry, here, adds⟩ := produced.exists_of_mem member
      have keyword := produced.adds entry here
      rw [adds] at keyword
      refine keyword.sound (shared node reached entry here) ?_ ((reads node v).mp accepted entry here)
      rintro spec new ⟨under, called⟩
      exact ih (reached.down here under) called
    | @reference name definition refers distinct siblings =>
      rw [convert_reference refers] at converted
      split at converted
      · cases converted
        rw [mongoReads]
        simp
      · apply ih (reached.unfolded refers) converted
        rw [reads.merged siblings]
        exact (reads.reference refers distinct siblings).mp accepted

theorem exists_last {α : Type} {P : α → Prop} {xs : List α} {x : α} (member : x ∈ xs) (here : P x) :
    ∃ front last back, xs = front ++ last :: back ∧ P last ∧ (∀ y ∈ back, ¬ P y) ∧
      (x = last ∨ x ∈ front) := by
  induction xs generalizing x with
  | nil => cases member
  | cons first xs ih =>
    by_cases later : ∃ y ∈ xs, P y
    · obtain ⟨y, inside, holds⟩ := later
      rcases List.mem_cons.mp member with rfl | among
      · obtain ⟨front, last, back, split, lastHolds, others, -⟩ := ih inside holds
        exact ⟨x :: front, last, back, by rw [split]; rfl, lastHolds, others, .inr List.mem_cons_self⟩
      · obtain ⟨front, last, back, split, lastHolds, others, place⟩ := ih among here
        exact ⟨first :: front, last, back, by rw [split]; rfl, lastHolds, others,
          place.imp_right (List.mem_cons_of_mem _)⟩
    · rcases List.mem_cons.mp member with rfl | among
      · exact ⟨[], x, xs, rfl, here, fun y inside holds => later ⟨y, inside, holds⟩, .inl rfl⟩
      · exact absurd ⟨x, among, here⟩ later

theorem jsonHolds_literals {declared : String → Prop} {entry : String × Json F} {literals : List (Json F)}
    (here : literalsOf entry = some literals) :
    JsonHolds M defs accepts declared entry.1 entry.2 v ↔ ∃ literal ∈ literals, M.same literal v := by
  unfold literalsOf at here
  split_ifs at here with const enum
  · cases here
    rw [const, jsonHolds_const]
    simp
  · split at here
    · rename_i written
      cases here
      rw [enum, written]
      have carries : Carries (fun _ _ : JsonSchema F => True) "enum" (.arr literals) (.arr literals) :=
        .enum literals
      exact jsonHolds_carried carries
    · cases here

theorem exists_literalsOf {key : String} {value : Json F} (supported : SupportedKeyword key value)
    (literal : key = "enum" ∨ key = "const") : ∃ literals, literalsOf (key, value) = some literals := by
  cases supported with
  | annotation note =>
    have each : ∀ key ∈ annotations, ¬ (key = "enum" ∨ key = "const") := by decide
    exact absurd literal (each key note)
  | const => exact ⟨[value], rfl⟩
  | enum literals => exact ⟨literals, rfl⟩
  | limit limits =>
    rcases literal with enum | const
    · exact absurd enum limits.2
    · exact absurd (const ▸ limits) (by decide)
  | _ => exact absurd literal (by decide)

/-- The literals that stay are the last ones, which admit no more than the others. -/
theorem literals_hold {rel : String × Json F → JsonSchema F → JsonSchema F → Prop} {out : JsonSchema F}
    {assigned : String × Json F → Option (String × Json F)} (produced : Produced rel node out assigned)
    (distinct : (node.map Prod.fst).Nodup)
    (each : ∀ entry ∈ node, SupportedKeyword entry.1 entry.2) (narrowing : Narrowing M node)
    (mongoReads : MongoReading M mongo) (accepted : mongo out v) {entry : String × Json F}
    (member : entry ∈ node) (literal : entry.1 = "enum" ∨ entry.1 = "const") :
    JsonHolds M defs accepts (Declares node) entry.1 entry.2 v := by
  obtain ⟨front, last, back, split, lastLiteral, others, place⟩ := exists_last
    (P := fun entry : String × Json F => entry.1 = "enum" ∨ entry.1 = "const") member literal
  have inside : last ∈ node := by simp [split]
  obtain ⟨after, literals⟩ := exists_literalsOf (each last inside) lastLiteral
  have adds := produced.adds last inside
  have admitted : ∃ literal ∈ after, M.same literal v := by
    cases assigns : assigned last with
    | none =>
      rw [assigns] at adds
      have each : ∀ key ∈ annotations, ¬ (key = "enum" ∨ key = "const") := by decide
      exact absurd lastLiteral (each _ adds.note_of_none)
    | some added =>
      rw [assigns] at adds
      have kept := produced.mem_of_last distinct split assigns fun other later both =>
        others other later both.2
      have limit : ¬ IsLimit last.1 := by
        rcases lastLiteral with enum | const
        · exact fun limits => limits.2 enum
        · exact fun limits => absurd (const ▸ limits) (by decide)
      -- The keyword has no schemas below it, so what they accept does not matter.
      have holds : JsonHolds M defs (fun _ _ => True) (Declares out) last.1 last.2 v :=
        adds.exact (fun limits => absurd limits limit) (fun _ _ _ _ _ => trivial)
          ((mongoReads out v).mp accepted added kept)
      exact (jsonHolds_literals literals).mp holds
  rcases place with rfl | earlier
  · exact (jsonHolds_literals literals).mpr admitted
  · obtain ⟨before, written⟩ := exists_literalsOf (each entry member) literal
    exact (jsonHolds_literals written).mpr
      (narrowing front last back entry before after split earlier written literals v admitted)

/-- Without recursive references no reference is cut: a name on the stack would be one. -/
theorem convert_exact (supported : SupportedSchema defs schema) (shared : SharedLimits defs schema)
    (plain : ¬ Recursive defs schema) (narrowing : ∀ node, Reaches defs schema node → Narrowing M node)
    (reads : JsonReading M defs accepts) (mongoReads : MongoReading M mongo) (fuel : Nat) :
    ∀ {stack : List String} {node out : JsonSchema F}, Reaches defs schema node →
      (∀ name ∈ stack, ∃ outer definition, Reaches defs schema outer ∧
        Refers defs outer name definition ∧ Reaches defs (merged definition outer) node) →
      convert defs fuel stack node = .ok out → ∀ v, mongo out v → accepts node v := by
  induction fuel with
  | zero =>
    intro stack node out _ _ converted
    cases converted
  | succ fuel ih =>
    intro stack node out reached met converted v accepted
    cases supported node reached with
    | keywords distinct each =>
      rw [convert_keywords each] at converted
      obtain ⟨assigned, produced⟩ := exists_produced each converted
      rw [reads]
      intro entry member
      by_cases literal : entry.1 = "enum" ∨ entry.1 = "const"
      · have narrow := narrowing node reached
        exact literals_hold produced distinct each narrow mongoReads accepted member literal
      have keyword := produced.adds entry member
      cases assigns : assigned entry with
      | none =>
        rw [assigns] at keyword
        rw [JsonHolds, if_pos keyword.note_of_none]
        trivial
      | some added =>
        rw [assigns] at keyword
        have kept := produced.mem_of_single distinct member assigns literal
        have holds := (mongoReads out v).mp accepted added kept
        rw [produced.declares distinct] at holds
        refine keyword.exact (shared node reached entry member) ?_ holds
        rintro spec new ⟨under, called⟩
        refine ih (reached.down member under) (fun name known => ?_) called
        obtain ⟨outer, definition, first, refers, inner⟩ := met name known
        exact ⟨outer, definition, first, refers, inner.down member under⟩
    | @reference name definition refers distinct siblings =>
      rw [convert_reference refers] at converted
      split at converted
      · rename_i known
        obtain ⟨outer, first, reach, refersTo, inner⟩ := met name known
        exact absurd ⟨outer, node, name, first, definition, reach, refersTo, inner, refers⟩ plain
      · rw [reads.reference refers distinct siblings, ← reads.merged siblings]
        refine ih (reached.unfolded refers) (fun other known => ?_) converted v accepted
        rcases List.mem_append.mp known with old | new
        · obtain ⟨outer, first, reach, refersTo, inner⟩ := met other old
          exact ⟨outer, first, reach, refersTo, inner.unfolded refers⟩
        · obtain rfl := List.mem_singleton.mp new
          exact ⟨node, definition, reached, refers, .self⟩

end Meaning

theorem Refers.eq {F : Type} {defs node definition other : JsonSchema F} {name ref : String}
    {outer : String} (refers : Refers defs node name definition)
    (written : node.lookup "$ref" = some (.str ref)) (named : refName ref = some outer)
    (known : defs.lookup outer = some (.obj other)) : name = outer ∧ definition = other := by
  obtain ⟨text, here, found⟩ := refers.ref
  rw [written] at here
  cases here
  rw [named] at found
  cases found
  have one := refers.known
  rw [known] at one
  cases one
  exact ⟨rfl, rfl⟩

theorem Refers.absent {F : Type} {defs node definition : JsonSchema F} {name : String}
    (refers : Refers defs node name definition) (missing : node.lookup "$ref" = none) : False := by
  obtain ⟨text, here, -⟩ := refers.ref
  rw [missing] at here
  cases here

section Tree

/-- A definition that refers to itself, beside one that does not. -/
def treeDefs : JsonSchema Empty :=
  [("Tree", .obj [("type", .str "object"),
      ("properties", .obj [("left", .obj [("$ref", .str "#/$defs/Tree")])])]),
    ("Key", .obj [("type", .str "integer"), ("enum", .arr [.int 1, .int 2])])]

def treeNode : JsonSchema Empty :=
  [("type", .str "object"), ("properties", .obj [("left", .obj [("$ref", .str "#/$defs/Tree")])])]

def treeRef : JsonSchema Empty := [("$ref", .str "#/$defs/Tree")]

def keyNode : JsonSchema Empty := [("type", .str "integer"), ("enum", .arr [.int 1, .int 2])]

def keyRef : JsonSchema Empty := [("$ref", .str "#/$defs/Key")]

/-- Literals that are integers; the schemas here have no limits. -/
def integerMeanings : Meanings Empty where
  same literal v := ∃ i, literal = .int i ∧ (v = .int i ∨ v = .long i)
  meets _ _ _ := True
  mongoMeets _ _ _ := True
  alike _ _ _ _ _ := Iff.rfl

theorem reaches_treeRef {node : JsonSchema Empty} (reached : Reaches treeDefs treeRef node) :
    node = treeRef ∨ node = treeNode := by
  induction reached with
  | self => exact .inl rfl
  | down reached member under ih =>
    rcases ih with rfl | rfl
    · simp only [treeRef, List.mem_singleton] at member
      subst member
      simp [below] at under
    · simp only [treeNode, List.mem_cons, List.not_mem_nil, or_false] at member
      rcases member with rfl | rfl
      · simp [below] at under
      · exact .inl (by simpa [below, schemaOf, treeRef] using under)
  | unfolded reached refers ih =>
    rcases ih with rfl | rfl
    · obtain ⟨-, rfl⟩ : _ = "Tree" ∧ _ = treeNode := refers.eq rfl rfl rfl
      exact .inr rfl
    · exact (refers.absent rfl).elim

theorem reaches_keyRef {node : JsonSchema Empty} (reached : Reaches treeDefs keyRef node) :
    node = keyRef ∨ node = keyNode := by
  induction reached with
  | self => exact .inl rfl
  | down reached member under ih =>
    rcases ih with rfl | rfl
    · simp only [keyRef, List.mem_singleton] at member
      subst member
      simp [below] at under
    · simp only [keyNode, List.mem_cons, List.not_mem_nil, or_false] at member
      rcases member with rfl | rfl <;> simp [below] at under
  | unfolded reached refers ih =>
    rcases ih with rfl | rfl
    · obtain ⟨-, rfl⟩ : _ = "Key" ∧ _ = keyNode := refers.eq rfl rfl rfl
      exact .inr rfl
    · exact (refers.absent rfl).elim

theorem supported_treeRef : SupportedSchema treeDefs treeRef := by
  intro node reached
  rcases reaches_treeRef reached with rfl | rfl
  · have refers : Refers treeDefs treeRef "Tree" treeNode := ⟨⟨_, rfl, rfl⟩, rfl⟩
    exact .reference refers (by simp [treeRef]) (by simp [treeRef])
  · refine .keywords (by simp [treeNode]) ?_
    intro entry member
    simp only [treeNode, List.mem_cons, List.not_mem_nil, or_false] at member
    rcases member with rfl | rfl
    · exact .type rfl
    · exact .properties [("left", [("$ref", .str "#/$defs/Tree")])]

theorem supported_keyRef : SupportedSchema treeDefs keyRef := by
  intro node reached
  rcases reaches_keyRef reached with rfl | rfl
  · have refers : Refers treeDefs keyRef "Key" keyNode := ⟨⟨_, rfl, rfl⟩, rfl⟩
    exact .reference refers (by simp [keyRef]) (by simp [keyRef])
  · refine .keywords (by simp [keyNode]) ?_
    intro entry member
    simp only [keyNode, List.mem_cons, List.not_mem_nil, or_false] at member
    rcases member with rfl | rfl
    · exact .type rfl
    · exact .enum _

theorem accepts_treeRef : jsonAccepts integerMeanings treeDefs treeRef (.object []) := by
  have reads := jsonReading_jsonAccepts integerMeanings treeDefs
  have refers : Refers treeDefs treeRef "Tree" treeNode := ⟨⟨_, rfl, rfl⟩, rfl⟩
  rw [reads.reference refers (by simp [treeRef]) (by simp [treeRef]), reads]
  intro entry member
  simp only [treeNode, List.mem_cons, List.not_mem_nil, or_false] at member
  rcases member with rfl | rfl
  · rw [jsonHolds_type]
    exact ⟨"object", List.mem_singleton.mpr rfl, List.mem_singleton.mpr rfl⟩
  · simp [JsonHolds, SharedHolds, annotations, IsLimit, passthrough, Stored.fields]

theorem reaches_keyNode {node : JsonSchema Empty} (reached : Reaches treeDefs keyNode node) :
    node = keyNode := by
  induction reached with
  | self => rfl
  | down reached member under ih =>
    subst ih
    simp only [keyNode, List.mem_cons, List.not_mem_nil, or_false] at member
    rcases member with rfl | rfl <;> simp [below] at under
  | unfolded reached refers ih =>
    subst ih
    exact (refers.absent rfl).elim

end Tree

end Collector.Persistence.Mongo
