import Mathlib.Data.List.Dedup
import Mathlib.Data.List.Sort
import Mathlib.Data.List.TakeWhile
import Mathlib.Logic.Function.Basic
import Collector.Lib.Bson

/-!
The validators of the collections on their way from `warn` to `error`. All names are counted
before the first is switched, but whether a name has a validator at all is asked inside the second
loop, when the names before it are switched already.
-/

namespace Collector.Persistence.Mongo
open Collector.Lib

inductive ValidationLevel where
  | off
  | strict
  | moderate
  deriving DecidableEq, Repr

inductive ValidationAction where
  | error
  | warn
  | errorAndLog
  deriving DecidableEq, Repr

/-- The `options` of `listCollections`, as far as validation goes. -/
structure CollectionOptions where
  validator : Option Fields
  validationLevel : Option ValidationLevel
  validationAction : Option ValidationAction

structure Collection where
  options : CollectionOptions
  documents : List Fields

abbrev Database := String → Option Collection

structure InvalidDocumentsError where
  message : String
  deriving DecidableEq, Repr

section Model

/-- `collection_options`. -/
def collectionOptions (db : Database) (name : String) : Option CollectionOptions :=
  (db name).map Collection.options

/-- The validator of the collection; an empty one counts as none. -/
def validatorOf (db : Database) (name : String) : Option Fields :=
  ((collectionOptions db name).bind CollectionOptions.validator).filter fun validator =>
    !validator.isEmpty

def hasValidator (db : Database) (name : String) : Bool := (validatorOf db name).isSome

/-- `collMod` of a collection that exists. -/
def collMod (name : String) (change : CollectionOptions → CollectionOptions) (db : Database) :
    Database :=
  Function.update db name ((db name).map fun collection =>
    { collection with options := change collection.options })

def CollectionOptions.enforced (options : CollectionOptions) : CollectionOptions :=
  { options with validationLevel := some .strict, validationAction := some .error }

def ensureCollection (name : String) (validator : Option Fields) (action : ValidationAction)
    (db : Database) : Database :=
  let settings := fun options : CollectionOptions =>
    match validator with
    | none => options
    | some _ =>
      { options with validator, validationLevel := some .strict, validationAction := some action }
  match collectionOptions db name with
  | none => Function.update db name (some ⟨settings ⟨none, none, none⟩, []⟩)
  | some _ => collMod name settings db

-- `accepts` is how the server matches a document against a query.
variable (accepts : Fields → Fields → Bool)

def invalidDocumentCount (db : Database) (name : String) : Nat :=
  match validatorOf db name with
  | none => 0
  | some validator =>
    ((db name).elim [] Collection.documents).countP fun document => !accepts validator document

/-- The names with invalid documents, sorted. -/
def badCounts (db : Database) (names : List String) : List (String × Nat) :=
  let invalid := names.dedup.map fun name => (name, invalidDocumentCount accepts db name)
  (invalid.filter fun bad => bad.2 ≠ 0).insertionSort fun bad other => bad.1 ≤ other.1

/-- The loop that switches one name after the other. -/
def switchEach : List String → Database → Except InvalidDocumentsError Unit × Database
  | [], db => (.ok (), db)
  | name :: names, db =>
    if hasValidator db name then
      switchEach names (collMod name .enforced db)
    else
      (.error ⟨name ++ ": validator відсутній, перемикати в error нічого"⟩, db)

def requireValidThenError (names : List String) (db : Database) :
    Except InvalidDocumentsError Unit × Database :=
  let bad := badCounts accepts db names
  if bad.isEmpty then
    switchEach names db
  else
    let detail := ", ".intercalate (bad.map fun (name, count) => name ++ "=" ++ toString count)
    (.error ⟨"validationAction=error відхилено: невалідні документи (" ++ detail ++ ")"⟩, db)

end Model

/-- `validationLevel` and `validationAction` of a collection. -/
def settings (db : Database) (name : String) :
    Option (Option ValidationLevel × Option ValidationAction) :=
  (collectionOptions db name).map fun options => (options.validationLevel, options.validationAction)

/-- All of the names are switched, or no collection is changed. -/
structure AllOrNone (before : Database) (names : List String)
    (ended : Except InvalidDocumentsError Unit × Database) : Prop where
  refused : ∀ e, ended.1 = .error e → ∀ name, settings ended.2 name = settings before name
  switched : ended.1 = .ok () → ∀ name ∈ names,
    (settings ended.2 name).map Prod.snd = some (some .error)

section Switch
variable {accepts : Fields → Fields → Bool} {db : Database} {name : String} {names : List String}

theorem collectionOptions_collMod (other : String) (change : CollectionOptions → CollectionOptions) :
    collectionOptions (collMod name change db) other =
      if other = name then (collectionOptions db name).map change else collectionOptions db other := by
  by_cases same : other = name
  · subst same
    rw [if_pos rfl, collectionOptions, collMod, Function.update_self, collectionOptions, Option.map_map,
      Option.map_map]
    rfl
  · rw [if_neg same, collectionOptions, collMod, Function.update_of_ne same, collectionOptions]

theorem validatorOf_enforced (other : String) :
    validatorOf (collMod name .enforced db) other = validatorOf db other := by
  rw [validatorOf, validatorOf, collectionOptions_collMod]
  split
  · rename_i same
    rw [same]
    cases collectionOptions db name <;> rfl
  · rfl

theorem hasValidator_enforced : hasValidator (collMod name .enforced db) = hasValidator db := by
  funext other
  rw [hasValidator, hasValidator, validatorOf_enforced]

/-- The loop switches the names before the first one without a validator, and nothing else. -/
theorem switchEach_options (other : String) :
    collectionOptions (switchEach names db).2 other =
      if other ∈ names.takeWhile (hasValidator db) then
        (collectionOptions db other).map CollectionOptions.enforced
      else collectionOptions db other := by
  induction names generalizing db with
  | nil => rfl
  | cons name names ih =>
    rw [switchEach]
    by_cases has : hasValidator db name = true
    · rw [if_pos has, ih, hasValidator_enforced, collectionOptions_collMod,
        List.takeWhile_cons_of_pos has]
      by_cases same : other = name
      · subst same
        rw [if_pos rfl, if_pos List.mem_cons_self, Option.map_map]
        split <;> rfl
      · rw [if_neg same]
        exact if_congr (by simp [same]) rfl rfl
    · rw [if_neg has, List.takeWhile_cons_of_neg has]
      rfl

/-- It gets to the end when all of them have one. -/
theorem switchEach_ok_iff :
    (switchEach names db).1 = .ok () ↔ ∀ name ∈ names, hasValidator db name = true := by
  induction names generalizing db with
  | nil => simp [switchEach]
  | cons name names ih =>
    rw [switchEach, List.forall_mem_cons]
    by_cases has : hasValidator db name = true
    · rw [if_pos has, ih, hasValidator_enforced]
      simp [has]
    · simp [has]

/-- Without a bad count the second loop decides. -/
theorem requireValidThenError_eq (valid : ∀ name ∈ names, invalidDocumentCount accepts db name = 0) :
    requireValidThenError accepts names db = switchEach names db := by
  have none_bad : badCounts accepts db names = [] := by
    have all_zero : (names.dedup.map fun name => (name, invalidDocumentCount accepts db name)).filter
        (fun bad => bad.2 ≠ 0) = [] := by
      rw [List.filter_eq_nil_iff]
      intro bad member
      obtain ⟨name, given, rfl⟩ := List.mem_map.mp member
      simpa using valid name (List.mem_dedup.mp given)
    rw [badCounts, all_zero]
    rfl
  rw [requireValidThenError, none_bad]
  rfl

/-- With one nothing is touched. -/
theorem requireValidThenError_bad (given : name ∈ names)
    (bad : invalidDocumentCount accepts db name ≠ 0) :
    ∃ e, requireValidThenError accepts names db = (.error e, db) := by
  have member : (name, invalidDocumentCount accepts db name) ∈ badCounts accepts db names := by
    rw [badCounts, List.mem_insertionSort, List.mem_filter]
    exact ⟨List.mem_map_of_mem (List.mem_dedup.mpr given), decide_eq_true bad⟩
  have filled : (badCounts accepts db names).isEmpty = false := by
    rw [List.isEmpty_eq_false_iff]
    exact List.ne_nil_of_mem member
  rw [requireValidThenError]
  dsimp only
  rw [filled]
  exact ⟨_, rfl⟩

/-- Switching a collection leaves its settings as they are if it is switched already. -/
theorem settings_map_enforced (options : Option CollectionOptions) :
    ((options.map CollectionOptions.enforced).map fun options =>
      (options.validationLevel, options.validationAction)) =
      options.map fun _ => (some .strict, some .error) := by
  cases options <;> rfl

theorem exists_options_of_hasValidator (has : hasValidator db name = true) :
    ∃ options, collectionOptions db name = some options := by
  cases found : collectionOptions db name with
  | none =>
    rw [hasValidator, validatorOf, found] at has
    cases has
  | some options => exact ⟨options, rfl⟩

/-- The switch is all or nothing exactly when it is refused by a count, when every name has a
validator, or when the names before the first one without a validator are switched already. -/
theorem requireValidThenError_allOrNone_iff (accepts : Fields → Fields → Bool) (db : Database)
    (names : List String) : AllOrNone db names (requireValidThenError accepts names db) ↔
      (∃ name ∈ names, invalidDocumentCount accepts db name ≠ 0) ∨
      (∀ name ∈ names, hasValidator db name = true) ∨
      ∀ name ∈ names.takeWhile (hasValidator db), settings db name = some (some .strict, some .error) := by
  by_cases counted : ∃ name ∈ names, invalidDocumentCount accepts db name ≠ 0
  · obtain ⟨name, given, bad⟩ := counted
    obtain ⟨e, ended⟩ := requireValidThenError_bad given bad
    rw [ended]
    refine iff_of_true ⟨fun _ _ _ => rfl, ?_⟩ (.inl ⟨name, given, bad⟩)
    intro returned
    cases returned
  rw [or_iff_right counted]
  push Not at counted
  rw [requireValidThenError_eq counted]
  by_cases all : ∀ name ∈ names, hasValidator db name = true
  · refine iff_of_true ⟨?_, ?_⟩ (.inl all)
    · intro e raised
      rw [switchEach_ok_iff.mpr all] at raised
      cases raised
    · intro _ name given
      have reached : name ∈ names.takeWhile (hasValidator db) := by
        rwa [List.takeWhile_eq_self_iff.mpr all]
      obtain ⟨options, found⟩ := exists_options_of_hasValidator (all name given)
      rw [settings, switchEach_options, if_pos reached, settings_map_enforced, found]
      rfl
  · rw [or_iff_right all]
    obtain ⟨e, raised⟩ : ∃ e, (switchEach names db).1 = .error e := by
      cases outcome : (switchEach names db).1 with
      | error e => exact ⟨e, rfl⟩
      | ok => exact absurd (switchEach_ok_iff.mp outcome) all
    constructor
    · intro whole name reached
      obtain ⟨options, found⟩ := exists_options_of_hasValidator (List.mem_takeWhile_imp reached)
      have same := whole.refused e raised name
      rw [settings, switchEach_options, if_pos reached, settings_map_enforced, found] at same
      exact same.symm
    · intro switched
      refine ⟨?_, ?_⟩
      · intro _ _ name
        rw [settings, switchEach_options]
        split
        · rename_i reached
          obtain ⟨options, found⟩ := exists_options_of_hasValidator (List.mem_takeWhile_imp reached)
          rw [settings_map_enforced, switched name reached, found]
          rfl
        · rfl
      · intro returned
        rw [raised] at returned
        cases returned

/-- One collection with a validator, in `warn`. -/
def halfMissing : Database :=
  ensureCollection "companies" (some [("name", .record [("$exists", .bool true)])]) .warn fun _ => none

theorem first_switched_before_missing :
    ¬AllOrNone halfMissing ["companies", "receipts"]
      (requireValidThenError (fun _ _ => true) ["companies", "receipts"] halfMissing) := by
  intro whole
  have raised : (requireValidThenError (fun _ _ => true) ["companies", "receipts"] halfMissing).1 =
      .error ⟨"receipts: validator відсутній, перемикати в error нічого"⟩ := by
    decide +kernel
  have same := whole.refused _ raised "companies"
  revert same
  decide +kernel

end Switch
end Collector.Persistence.Mongo
