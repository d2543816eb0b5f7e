import Mathlib.Data.String.Basic
import Collector.Lib.Json
import Collector.Lib.LabelledRuns
import Collector.Persistence.Mongo.ValidationSwitch

/-!
The forward-only migrations of the document store. An attempt reads the applied ones, refuses a drift,
and runs what is missing up to its target; a migration is recorded after it ran. Each command of a
migration is a step of its own, and an attempt may end at any of them.
-/

namespace Collector.Persistence.Mongo.Migrations
open Collector.Lib

inductive MigrationError where
  | drift (message : String)
  | invalidDocuments (error : InvalidDocumentsError)
  | duplicateKey (version : String)
  /-- The server refuses a command on the collection. -/
  | refused (name : String)

/-- A migration file. `upgrade` is what `load` finds in it, if anything. -/
structure MongoMigration where
  version : String
  name : String
  checksum : String
  upgrade : Option (Procedure Database MigrationError Unit)

/-- A document of `schema_migrations`. -/
structure AppliedMigration where
  version : String
  name : String
  checksum : String

structure MongoState where
  collections : Database
  applied : List AppliedMigration

def MongoState.withCollections (collections : Database) (state : MongoState) : MongoState :=
  { state with collections }

section Upgrade

def MongoMigration.fullName (migration : MongoMigration) : String :=
  migration.version ++ "_" ++ migration.name

def MongoMigration.record (migration : MongoMigration) : AppliedMigration :=
  ⟨migration.version, migration.name, migration.checksum⟩

/-- What differs for one applied migration. The last file of a version counts. -/
def driftOf (migrations : List MongoMigration) (doc : AppliedMigration) : Option String :=
  match migrations.reverse.find? fun migration => migration.version = doc.version with
  | none => some (doc.version ++ "_" ++ doc.name ++ ": застосована, але файлу немає")
  | some migration =>
    if doc.checksum = migration.checksum then none
    else some (migration.fullName ++ ": модуль змінено після застосування " ++
      "(checksum не збігається) — потрібна нова forward-міграція")

def checkDrift (applied : List AppliedMigration) (migrations : List MongoMigration) : List String :=
  (applied.insertionSort fun doc other => doc.version ≤ other.version).filterMap (driftOf migrations)

def load (migration : MongoMigration) :
    Procedure MongoState MigrationError (Procedure Database MigrationError Unit) :=
  match migration.upgrade with
  | some upgrade => .done upgrade
  | none => .fail (.drift (migration.fullName ++ ".py: немає функції upgrade(db)"))

/-- `insert_one` into `schema_migrations`. -/
def insertRecord (migration : MongoMigration) (state : MongoState) : Except MigrationError MongoState :=
  if migration.version ∈ state.applied.map AppliedMigration.version then
    .error (.duplicateKey migration.version)
  else .ok { state with applied := state.applied ++ [migration.record] }

/-- The loop of `upgrade`, with the versions that were applied before it. -/
def applyEach (target : Option String) (done : List String) :
    List MongoMigration → List String → Procedure MongoState MigrationError (List String)
  | [], applied => .done applied
  | migration :: rest, applied =>
    if target.any (· < migration.version) then .done applied
    else if migration.version ∈ done then applyEach target done rest applied
    else do
      let run ← load migration
      run.on MongoState.collections MongoState.withCollections
      .tell (insertRecord migration)
      applyEach target done rest (applied ++ [migration.fullName])

def upgrade (items : List MongoMigration) (target : Option String) :
    Procedure MongoState MigrationError (List String) := do
  let problems ← .ask fun state => checkDrift state.applied items
  if problems.isEmpty then
    let done ← .ask fun state => state.applied.map AppliedMigration.version
    applyEach target done items []
  else
    .fail (.drift ("; ".intercalate problems))

end Upgrade

section Helpers

def createCollection (name : String) (options : CollectionOptions) (db : Database) :
    Except MigrationError Database :=
  match db name with
  | none => .ok (Function.update db name (some ⟨options, []⟩))
  | some _ => .error (.refused name)

/-- The command `collMod`. -/
def modify (name : String) (change : CollectionOptions → CollectionOptions) (db : Database) :
    Except MigrationError Database :=
  match db name with
  | none => .error (.refused name)
  | some _ => .ok (collMod name change db)

def validated (validator : Fields) (action : ValidationAction) (options : CollectionOptions) :
    CollectionOptions :=
  { options with
    validator := some validator, validationLevel := some .strict, validationAction := some action }

def ensureCollection (name : String) (validator : Option Fields) (action : ValidationAction) :
    Procedure Database MigrationError Unit := do
  let options ← .ask fun db => collectionOptions db name
  let settings := validator.elim id fun validator => validated validator action
  match options with
  | none => .tell (createCollection name (settings ⟨none, none, none⟩))
  | some _ => if validator.isSome then .tell (modify name settings) else pure ()

-- `accepts` is how the server matches a document against a query.
variable (accepts : Fields → Fields → Bool)

def invalidDocumentCount (name : String) : Procedure Database MigrationError Nat := do
  match ← .ask fun db => validatorOf db name with
  | none => pure 0
  | some validator => .ask fun db =>
      ((db name).elim [] Collection.documents).countP fun document => !accepts validator document

/-- The counts by name, as a `dict`. -/
def countEach : List String → List (String × Nat) → Procedure Database MigrationError (List (String × Nat))
  | [], counts => .done counts
  | name :: names, counts => do
    let count ← invalidDocumentCount accepts name
    countEach names (Json.setEntry counts (name, count))

def switchToError (name : String) : Procedure Database MigrationError Unit := do
  let validator ← .ask fun db => validatorOf db name
  if validator.isSome then
    .tell (modify name .enforced)
  else
    .fail (.invalidDocuments ⟨name ++ ": validator відсутній, перемикати в error нічого"⟩)

def requireValidThenError (names : List String) : Procedure Database MigrationError Unit := do
  let invalid ← countEach accepts names []
  let bad := (invalid.filter fun bad => bad.2 ≠ 0).insertionSort fun bad other => bad.1 ≤ other.1
  if bad.isEmpty then
    .each switchToError names
  else
    let detail := ", ".intercalate (bad.map fun (name, count) => name ++ "=" ++ toString count)
    .fail (.invalidDocuments ⟨"validationAction=error відхилено: невалідні документи (" ++ detail ++ ")"⟩)

end Helpers

section Files

def appliedProjectionReceipts : String := "applied_projection_receipts"

def currentCollections : List String :=
  ["catalog_items_current", "catalog_offers_current", "vehicle_listings_current", "sellers_current"]

def domainCollections : List String :=
  ["catalog_items_current", "catalog_offers_current", "entity_projection_versions",
    "catalog_offer_observations", "product_reviews", "product_questions", "vehicle_listings_current",
    "vehicle_observations", "sellers_current", "contact_observations", appliedProjectionReceipts]

/-- The validators of the first migration, by collection. -/
def validators (current receipt : Fields) (name : String) : Option Fields :=
  if name = appliedProjectionReceipts then some receipt
  else if name ∈ currentCollections then some current
  else none

/-- `0001_collections_validators_warn.py`, with its two assets. -/
def collectionsValidatorsWarn (current receipt : Fields) : Procedure Database MigrationError Unit :=
  .each (fun name => ensureCollection name (validators current receipt name) .warn) domainCollections

/-- `0002_validators_error.py`. -/
def validatorsError (accepts : Fields → Fields → Bool) : Procedure Database MigrationError Unit :=
  requireValidThenError accepts (currentCollections ++ [appliedProjectionReceipts])

end Files

/-! The helpers when nobody else is there, against what they do in one go. -/

section Alone
variable {accepts : Fields → Fields → Bool} {db : Database}

theorem exec_ask {α β : Type} (look : Database → α) (f : α → Procedure Database MigrationError β) :
    (Procedure.ask look >>= f).exec db = (f (look db)).exec db := rfl

theorem collMod_unchanged (name : String) : collMod name (fun options => options) db = db := by
  funext other
  by_cases same : other = name
  · subst same
    cases found : db other <;> simp [collMod, found]
  · exact Function.update_of_ne same ..

theorem exec_ensureCollection (name : String) (validator : Option Fields) (action : ValidationAction) :
    (ensureCollection name validator action).exec db =
      (.ok (), Mongo.ensureCollection name validator action db) := by
  rw [ensureCollection, exec_ask, Mongo.ensureCollection]
  cases found : db name <;> cases validator <;>
    simp [collectionOptions, found, Procedure.tell, Procedure.exec, createCollection, modify, validated,
      Except.toOption]
  · exact congrArg (Prod.mk _) (collMod_unchanged name).symm
  · rfl

theorem exec_invalidDocumentCount (name : String) : (invalidDocumentCount accepts name).exec db =
    (.ok (Mongo.invalidDocumentCount accepts db name), db) := by
  rw [invalidDocumentCount, exec_ask, Mongo.invalidDocumentCount]
  cases validatorOf db name <;> rfl

theorem exec_countEach (names : List String) (counts : List (String × Nat)) :
    (countEach accepts names counts).exec db = (.ok (names.foldl (fun counts name =>
      Json.setEntry counts (name, Mongo.invalidDocumentCount accepts db name)) counts), db) := by
  induction names generalizing counts with
  | nil => rfl
  | cons name names ih =>
    rw [countEach, Procedure.exec_bind, exec_invalidDocumentCount]
    exact ih _

theorem foldl_setEntry_of_nodup {count : String → Nat} (names : List String) (counts : List (String × Nat))
    (distinct : (counts.map Prod.fst ++ names).Nodup) :
    names.foldl (fun counts name => Json.setEntry counts (name, count name)) counts =
      counts ++ names.map fun name => (name, count name) := by
  induction names generalizing counts with
  | nil => simp
  | cons name names ih =>
    have fresh : name ∉ counts.map Prod.fst := fun member =>
      (List.nodup_append.mp distinct).2.2 name member name List.mem_cons_self rfl
    rw [List.foldl_cons, Json.setEntry, if_neg fresh, ih _ (by simpa using distinct)]
    simp

theorem exec_switchEach (names : List String) : (Procedure.each switchToError names).exec db =
    ((Mongo.switchEach names db).1.mapError .invalidDocuments, (Mongo.switchEach names db).2) := by
  induction names generalizing db with
  | nil => rfl
  | cons name names ih =>
    rw [Procedure.each, Procedure.exec_bind, switchToError, exec_ask, Mongo.switchEach]
    by_cases has : (validatorOf db name).isSome
    · obtain ⟨options, found⟩ := exists_options_of_hasValidator has
      obtain ⟨collection, stored⟩ : ∃ collection, db name = some collection := by
        cases stored : db name with
        | none => simp [collectionOptions, stored] at found
        | some collection => exact ⟨collection, rfl⟩
      rw [if_pos has, if_pos (show hasValidator db name = true from has), ← ih]
      simp [Procedure.tell, Procedure.exec, modify, stored, Except.toOption]
    · rw [if_neg has, if_neg (show ¬ hasValidator db name = true from has)]
      rfl

theorem exec_requireValidThenError {names : List String} (distinct : names.Nodup) :
    (requireValidThenError accepts names).exec db =
      ((Mongo.requireValidThenError accepts names db).1.mapError .invalidDocuments,
        (Mongo.requireValidThenError accepts names db).2) := by
  rw [requireValidThenError, Procedure.exec_bind, exec_countEach,
    foldl_setEntry_of_nodup names [] (by simpa using distinct), Mongo.requireValidThenError]
  dsimp only
  rw [badCounts, List.Nodup.dedup distinct, List.nil_append]
  split_ifs
  · exact exec_switchEach names
  · rfl

end Alone

end Collector.Persistence.Mongo.Migrations
