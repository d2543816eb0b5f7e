import Collector.Persistence.Mongo.MigrationRuns

/-!
The two migrations of the repository. The first gives the collections their validators in `warn`, the
second turns these to `error`; each may be begun any number of times before it gets through.
-/

namespace Collector.Persistence.Mongo.Migrations
open Collector.Lib

/-- What others do to the collections: they fill them and create new ones, but no options change. -/
def Writes (db now : Database) : Prop :=
  ∀ name options, collectionOptions db name = some options → collectionOptions now name = some options

/-- The collection exists, and its validator, if it is to have one, is strict with such an action. -/
def Guarded (current receipt : Fields) (allowed : ValidationAction → Prop) (name : String)
    (db : Database) : Prop :=
  ∃ options, collectionOptions db name = some options ∧
    ∀ validator, validators current receipt name = some validator →
      options.validator = some validator ∧ options.validationLevel = some .strict ∧
      ∃ action, options.validationAction = some action ∧ allowed action

/-- What the first migrations have done. -/
def InForce (current receipt : Fields) : Nat → Database → Prop
  | 0, _ => True
  | 1, db => ∀ name ∈ domainCollections,
      Guarded current receipt (fun action => action = .warn ∨ action = .error) name db
  | _, db => ∀ name ∈ domainCollections, Guarded current receipt (· = .error) name db

variable {current receipt : Fields} {accepts : Fields → Fields → Bool} {db now : Database}
  {allowed : ValidationAction → Prop} {name other : String}

theorem Guarded.moved (guarded : Guarded current receipt allowed name db) (moved : Writes db now) :
    Guarded current receipt allowed name now := by
  obtain ⟨options, found, right⟩ := guarded
  exact ⟨options, moved name options found, right⟩

theorem Guarded.mono {more : ValidationAction → Prop} (weaker : ∀ action, allowed action → more action)
    (guarded : Guarded current receipt allowed name db) : Guarded current receipt more name db := by
  obtain ⟨options, found, right⟩ := guarded
  refine ⟨options, found, fun validator given => ?_⟩
  obtain ⟨same, level, action, acts, fine⟩ := right validator given
  exact ⟨same, level, action, acts, weaker action fine⟩

theorem InForce.moved {k : Nat} (holds : InForce current receipt k db) (moved : Writes db now) :
    InForce current receipt k now := by
  match k with
  | 0 => trivial
  | 1 => exact fun name member => (holds name member).moved moved
  | _ + 2 => exact fun name member => (holds name member).moved moved

section Commands

theorem Guarded.modified {change : CollectionOptions → CollectionOptions} {after : Database}
    (modified : modify name change db = .ok after)
    (right : ∀ options validator, validators current receipt name = some validator →
      collectionOptions db name = some options → (change options).validator = some validator ∧
      (change options).validationLevel = some .strict ∧
      ∃ action, (change options).validationAction = some action ∧ allowed action) :
    Guarded current receipt allowed name after := by
  unfold Migrations.modify at modified
  cases found : db name with
  | none => simp [found] at modified
  | some collection =>
    simp only [found] at modified
    cases modified
    have here : collectionOptions db name = some collection.options := by rw [collectionOptions, found]; rfl
    refine ⟨change collection.options, ?_, fun validator given => right _ validator given here⟩
    rw [collectionOptions_collMod, if_pos rfl, here]
    rfl

theorem Guarded.modified_other {change : CollectionOptions → CollectionOptions} {after : Database}
    (modified : modify name change db = .ok after) (apart : other ≠ name)
    (guarded : Guarded current receipt allowed other db) : Guarded current receipt allowed other after := by
  unfold Migrations.modify at modified
  split at modified
  · cases modified
  · cases modified
    obtain ⟨options, found, right⟩ := guarded
    exact ⟨options, by rw [collectionOptions_collMod, if_neg apart, found], right⟩

theorem collectionOptions_create {options : CollectionOptions} {after : Database}
    (created : createCollection name options db = .ok after) :
    collectionOptions db name = none ∧ collectionOptions after name = some options ∧
      ∀ other ≠ name, collectionOptions after other = collectionOptions db other := by
  unfold createCollection at created
  cases found : db name with
  | some collection => simp [found] at created
  | none =>
    simp only [found] at created
    cases created
    refine ⟨by rw [collectionOptions, found]; rfl, by simp [collectionOptions], fun other apart => ?_⟩
    simp [collectionOptions, Function.update_of_ne apart]

end Commands

section Rounds
variable {seen : List String}

/-- A round of the first migration; the collections before it stay as they are. -/
theorem safe_ensureCollection
    (before : ∀ other ∈ seen, Guarded current receipt (fun a => a = .warn ∨ a = .error) other db) :
    (ensureCollection name (validators current receipt name) .warn).Safe Writes (fun _ => True)
      (fun r db => r = .ok () → ∀ other ∈ name :: seen,
        Guarded current receipt (fun a => a = .warn ∨ a = .error) other db) db := by
  refine Procedure.safe_ask fun now moved _ => ?_
  dsimp only
  cases found : collectionOptions now name with
  | none =>
    refine Procedure.safe_tell (fun _ _ _ _ _ => by rintro ⟨⟩) fun later after again _ created => ?_
    refine ⟨trivial, ?_⟩
    obtain ⟨absent, here, others⟩ := collectionOptions_create created
    rintro - other member
    by_cases same : other = name
    · subst same
      refine ⟨_, here, fun validator given => ?_⟩
      rw [given]
      exact ⟨rfl, rfl, _, rfl, .inl rfl⟩
    · obtain ⟨options, known, right⟩ :=
        ((before other (List.mem_of_ne_of_mem same member)).moved moved).moved again
      exact ⟨options, (others other same).trans known, right⟩
  | some options =>
    cases given : validators current receipt name with
    | none =>
      rintro - other member
      rcases List.mem_cons.mp member with rfl | member
      · exact ⟨options, found, fun validator other => by rw [given] at other; cases other⟩
      · exact (before other member).moved moved
    | some validator =>
      refine Procedure.safe_tell (fun _ _ _ _ _ => by rintro ⟨⟩) fun later after again _ changed => ?_
      refine ⟨trivial, ?_⟩
      rintro - other member
      by_cases same : other = name
      · subst same
        refine Guarded.modified changed fun options asked wanted _ => ?_
        rw [given] at wanted
        cases wanted
        exact ⟨rfl, rfl, _, rfl, .inl rfl⟩
      · exact (((before other (List.mem_of_ne_of_mem same member)).moved moved).moved again).modified_other
          changed same

/-- A round of the second one. -/
theorem safe_switchToError (member : name ∈ domainCollections)
    (before : ∀ other ∈ seen, Guarded current receipt (· = .error) other db) :
    (switchToError name).Safe Writes (InForce current receipt 1)
      (fun r db => r = .ok () → ∀ other ∈ name :: seen,
        Guarded current receipt (· = .error) other db) db := by
  refine Procedure.safe_ask fun now moved _ => ?_
  split_ifs
  · refine Procedure.safe_tell (fun _ _ _ _ _ => by rintro ⟨⟩) fun later after again kept changed => ?_
    have switched : Guarded current receipt (· = .error) name after := by
      refine Guarded.modified changed fun options validator given found => ?_
      obtain ⟨known, here, right⟩ := kept name member
      obtain rfl : known = options := Option.some.inj (here.symm.trans found)
      exact ⟨(right validator given).1, rfl, _, rfl, rfl⟩
    constructor
    · intro other inside
      by_cases same : other = name
      · subst same
        exact switched.mono fun _ => .inr
      · exact (kept other inside).modified_other changed same
    · rintro - other inside
      by_cases same : other = name
      · subst same
        exact switched
      · exact (((before other (List.mem_of_ne_of_mem same inside)).moved moved).moved again).modified_other
          changed same
  · rintro ⟨⟩

theorem safe_countEach {names : List String} {counts : List (String × Nat)} :
    (countEach accepts names counts).Safe Writes (InForce current receipt 1) (fun _ _ => True) db := by
  induction names generalizing counts db with
  | nil => trivial
  | cons name names ih =>
    apply Procedure.safe_bind
    refine Procedure.safe_ask fun now _ _ => ?_
    split
    · exact ih
    · exact fun now _ kept => ⟨kept, ih⟩

end Rounds

section Release

/-- The migrations of the repository, with the checksums of their files. -/
def repository (accepts : Fields → Fields → Bool) (current receipt : Fields) (first second : String) :
    List MongoMigration :=
  [⟨"0001", "collections_validators_warn", first, some (collectionsValidatorsWarn current receipt)⟩,
    ⟨"0002", "validators_error", second, some (validatorsError accepts)⟩]

variable {first second : String}

theorem safe_collectionsValidatorsWarn :
    (collectionsValidatorsWarn current receipt).Safe Writes (fun _ => True)
      (fun r db => r = .ok () → InForce current receipt 1 db) db :=
  Procedure.safe_each (fun _ _ _ _ _ before => safe_ensureCollection before) trivial

/-- A collection that is to have a validator is one of those that are switched. -/
theorem validators_of_not_mem (outside : name ∉ currentCollections ++ [appliedProjectionReceipts]) :
    validators current receipt name = none := by
  simp only [List.mem_append, List.mem_singleton, not_or] at outside
  rw [validators, if_neg outside.2, if_neg outside.1]

theorem safe_validatorsError (holds : InForce current receipt 1 db) :
    (validatorsError accepts).Safe Writes (InForce current receipt 1)
      (fun r db => r = .ok () → InForce current receipt 2 db) db := by
  have guarded : ∀ name ∈ currentCollections ++ [appliedProjectionReceipts], name ∈ domainCollections := by
    decide
  apply Procedure.safe_bind
  apply (safe_countEach.holds holds).mono
  rintro (e | invalid) now ⟨-, kept⟩
  · rintro ⟨⟩
  dsimp only [Procedure.andThen]
  split_ifs
  · have switched := Procedure.safe_each (fun name member seen s _ before =>
      @safe_switchToError current receipt s name seen (guarded name member) before) kept
    apply (switched.holds kept).mono
    rintro r later ⟨finished, still⟩ returned name member
    by_cases inside : name ∈ currentCollections ++ [appliedProjectionReceipts]
    · exact finished returned name inside
    · obtain ⟨options, found, _⟩ := still name member
      refine ⟨options, found, fun validator given => ?_⟩
      rw [validators_of_not_mem inside] at given
      cases given
  · rintro ⟨⟩

theorem contract_repository :
    Contract (repository accepts current receipt first second) Writes (InForce current receipt) where
  distinct := by
    change ["0001", "0002"].Nodup
    decide
  refl _ _ _ found := found
  trans _ _ _ before after name options found := after name options (before name options found)
  stable _ _ _ moved holds := holds.moved moved
  upgrades k migration run at_place loaded db within := by
    match k with
    | 0 =>
      cases at_place
      cases loaded
      exact safe_collectionsValidatorsWarn
    | 1 =>
      cases at_place
      cases loaded
      exact safe_validatorsError within
    | k + 2 => simp [repository] at at_place

/-- The migrations with validators that every document passes. -/
def unchecked : List MongoMigration :=
  repository (fun _ _ => true) [("$comment", .null)] [("$comment", .null)] "" ""

variable {state : MongoState} {site : Attempts (repository accepts current receipt first second)}
  {P : Attempts (repository accepts current receipt first second) → Prop}
  {events : List (Call (repository accepts current receipt first second) ×
    Except MigrationError (List String))}

end Release

end Collector.Persistence.Mongo.Migrations
