import Collector.Lib.KeysetScan
import Collector.Persistence.Projection.Commit
import Mathlib.Data.Prod.Lex

/-!
Scans of the entity index. A reader lists the entities of a domain page by page in the order of
`ix_entity_index_domain_confirmed_version`, whose first column moves when a receipt is
acknowledged. Entities are never removed and their confirmed versions only grow, so a scan that
has come to its end has shown every entity that was there when it began.
-/

namespace Collector.Persistence.Projection
open Collector.Lib

/-- The columns of the keyset; PostgreSQL compares rows lexicographically. -/
def EntityIndex.position (entity : EntityIndex) : Int ×ₗ Uuid :=
  toLex (entity.confirmedProjectionVersion, entity.entityUuid)

def listEntities (db : Db) (domain : DataDomain) (after : Option (Int ×ₗ Uuid)) (limit : Int) :
    Except PersistenceError (List EntityIndex) := do
  ensure (decide (1 ≤ limit)) (.valueError "limit")
  return db.entityIndex.keyset (fun entity => decide (entity.domain = domain)) EntityIndex.position
    after limit.toNat

/-- The rows a scan of a domain is about. -/
def Db.entitiesOf (db : Db) (domain : DataDomain) : List EntityIndex :=
  db.entityIndex.rows.filter fun entity => decide (entity.domain = domain)

theorem mem_entitiesOf {db : Db} {domain : DataDomain} {entity : EntityIndex} :
    entity ∈ db.entitiesOf domain ↔ entity ∈ db.entityIndex.rows ∧ entity.domain = domain := by
  rw [Db.entitiesOf, List.mem_filter, decide_eq_true_eq]

section Interference
variable {codec : Codec} {db next : Db}

theorem listEntities_of_pos (db : Db) (domain : DataDomain) (after : Option (Int ×ₗ Uuid))
    {limit : Int} (positive : 1 ≤ limit) : listEntities db domain after limit =
      .ok (db.entityIndex.keyset (fun entity => decide (entity.domain = domain))
        EntityIndex.position after limit.toNat) := by
  rw [listEntities, decide_eq_true positive]
  rfl

theorem listEntities_page {domain : DataDomain} {after : Option (Int ×ₗ Uuid)} {limit : Int}
    {page : List EntityIndex} (listed : listEntities db domain after limit = .ok page) :
    Page EntityIndex.position (db.entitiesOf domain) after limit.toNat page := by
  unfold listEntities at listed
  simp only [Except.bind_eq_ok, ensure_eq_ok, pure, Except.pure, Except.ok.injEq] at listed
  obtain ⟨_, _, rfl⟩ := listed
  apply Table.page_keyset
  intro row other same
  exact congrArg (fun position => (ofLex position).2) same

/-- The entity with this identifier keeps its domain, and its confirmed version does not fall. -/
def Reaches (entity : EntityIndex) (db : Db) : Prop :=
  ∃ row, db.entityIndex.find? entity.entityUuid = some row ∧ row.domain = entity.domain ∧
    entity.confirmedProjectionVersion ≤ row.confirmedProjectionVersion

theorem Change.reaches {label : Label codec} {entity : EntityIndex}
    (change : Change codec db label next) (sound : Issued db) (held : Reaches entity db) :
    Reaches entity next := by
  obtain ⟨row, found, same, grown⟩ := held
  cases change with
  | same | attempted | leased | delivered | purged => exact ⟨row, found, same, grown⟩
  | registered new fresh =>
    have absent : new.entityUuid ∉ db.entityIndex.keys := fun known =>
      fresh (sound.entities _ known)
    refine ⟨row, ?_, same, grown⟩
    rw [db.entityIndex.find?_insert new absent, if_neg, found]
    intro here
    rw [← here, (db.entityIndex.find?_eq_none _).mpr absent] at found
    cases found
  | issued issue =>
    by_cases here : entity.entityUuid = issue.task.entityUuid
    · rw [here, issue.known] at found
      cases found
      exact ⟨issue.bumped, by rw [issue.find?_entity, if_pos here], same, grown⟩
    · exact ⟨row, by rw [issue.find?_entity, if_neg here, found], same, grown⟩
  | acknowledged recording =>
    by_cases here : entity.entityUuid = recording.receipt.entityUuid
    · rw [here, recording.known] at found
      cases found
      exact ⟨recording.confirmed, by rw [recording.find?_entity, if_pos here], same,
        grown.trans (le_max_left _ _)⟩
    · exact ⟨row, by rw [recording.find?_entity, if_neg here, found], same, grown⟩

/-- What the writers may commit between two pages: any calls, in any order. -/
def Writers (codec : Codec) (db next : Db) : Prop :=
  ∃ history : List (Event codec), (machine codec).Run db history next

/-- A scan of `list_entities` from a first page on, with writers between the pages. -/
abbrev EntityScan (codec : Codec) (domain : DataDomain) (limit : Int) :=
  Scan (Writers codec) (fun db after page => listEntities db domain after limit = .ok page)
    EntityIndex.position limit.toNat

theorem position_le {entity row : EntityIndex} (same : row.entityUuid = entity.entityUuid)
    (grown : entity.confirmedProjectionVersion ≤ row.confirmedProjectionVersion) :
    entity.position ≤ row.position := by
  rcases grown.lt_or_eq with below | level
  · exact Prod.Lex.toLex_le_toLex.mpr (.inl below)
  · exact Prod.Lex.toLex_le_toLex.mpr (.inr ⟨level, same.ge⟩)

/-- Writers move the keys of a domain forward only. -/
theorem writers_grow {domain : DataDomain} (sound : Issued db) (writes : Writers codec db next) :
    Issued next ∧ ∀ entity ∈ db.entitiesOf domain, ∃ row ∈ next.entitiesOf domain,
      row.entityUuid = entity.entityUuid ∧ entity.position ≤ row.position := by
  obtain ⟨history, run⟩ := writes
  refine ⟨(run_keeps sound trivial (fun _ _ _ _ _ _ => trivial) run).1, ?_⟩
  intro entity member
  obtain ⟨present, inDomain⟩ := mem_entitiesOf.mp member
  have start : Reaches entity db := ⟨entity, db.entityIndex.find?_of_mem present, rfl, le_rfl⟩
  obtain ⟨row, found, same, grown⟩ := (run_keeps sound start
    (fun _ _ _ sound held change => change.reaches sound held) run).2
  obtain ⟨present', same'⟩ := (next.entityIndex.find?_eq_some _ _).mp found
  exact ⟨row, mem_entitiesOf.mpr ⟨present', same.trans inDomain⟩, same', position_le same' grown⟩

/-- Once the writers rest, a scan comes to its end. -/
theorem exists_scan (db : Db) (domain : DataDomain) {limit : Int} (positive : 1 ≤ limit)
    (after : Option (Int ×ₗ Uuid)) : ∃ pages, EntityScan codec domain limit db after pages := by
  apply Scan.exists_of_still fun db => db.entitiesOf domain
  · omega
  · exact ⟨[], .nil⟩
  · intro after
    have listed := listEntities_of_pos db domain after positive
    exact ⟨_, listed, listEntities_page listed⟩

end Interference

namespace Sample

/-- A second listing, registered after the first. -/
def otherIdentity : EntityIdentity := { identity with sourceItemId := "2" }

def listings : List (Event codec) × Db :=
  (machine codec).replay Db.empty [register, .upsertEntity otherIdentity (id 2) now]

/-- After the first page the first listing is parsed and its receipt acknowledged. -/
def scanned : List (Event codec) × Db :=
  (machine codec).replay listings.2 [parse 1, acknowledge firstReceipt (some (event 1)) none]

def movedListing : EntityIndex :=
  { identity.row (id 1) now with projectionVersion := 1 }.confirm firstReceipt.toReceiptFields now

def pages : List (List EntityIndex) :=
  [[identity.row (id 1) now], [otherIdentity.row (id 2) now], [movedListing], []]

theorem rows_listings : listings.2.entityIndex.rows =
    [identity.row (id 1) now, otherIdentity.row (id 2) now] := by
  decide +kernel

theorem rows_moved : scanned.2.entityIndex.rows = [movedListing, otherIdentity.row (id 2) now] := by
  decide +kernel

/-- Pages of one row: the listing that moves is shown twice. -/
theorem scan_pages : EntityScan codec .vehicle 1 listings.2 none pages := by
  have writes : Writers codec listings.2 scanned.2 := ⟨scanned.1, (machine codec).run_replay _ _⟩
  have rests : Writers codec scanned.2 scanned.2 := ⟨[], .nil⟩
  have whole : ∀ row : EntityIndex, (1 : Int).toNat ≤ [row].length := fun _ => le_rfl
  apply Scan.next _ (whole _) rfl writes
  · apply Scan.next _ (whole _) rfl rests
    · apply Scan.next _ (whole _) rfl rests
      · apply Scan.last _ Nat.one_pos
        rw [listEntities_of_pos _ _ _ le_rfl, Table.keyset, Table.select, rows_moved]
        decide +kernel
      · rw [listEntities_of_pos _ _ _ le_rfl, Table.keyset, Table.select, rows_moved]
        decide +kernel
    · rw [listEntities_of_pos _ _ _ le_rfl, Table.keyset, Table.select, rows_moved]
      decide +kernel
  · rw [listEntities_of_pos _ _ _ le_rfl, Table.keyset, Table.select, rows_listings]
    decide +kernel

end Sample

/-- A scan of a domain that has come to its end misses no entity that existed when it began. -/
theorem entity_scan_complete {codec : Codec} {history : List (Event codec)} {start : Db}
    (reached : (machine codec).Run Db.empty history start) {domain : DataDomain} {limit : Int}
    {pages : List (List EntityIndex)} (scan : EntityScan codec domain limit start none pages)
    {entity : EntityIndex} (present : entity ∈ start.entityIndex.rows)
    (inDomain : entity.domain = domain) :
    ∃ page ∈ pages, ∃ row ∈ page, row.entityUuid = entity.entityUuid := by
  apply scan.complete Issued fun db => db.entitiesOf domain
  · exact fun _ _ _ _ listed => listEntities_page listed
  · exact fun _ _ sound writes => writers_grow sound writes
  · exact run_issued reached
  · exact mem_entitiesOf.mpr ⟨present, inDomain⟩
  · nofun

theorem entity_scan_complete_moved : ∃ page ∈ Sample.pages, ∃ row ∈ page,
    row.entityUuid = Sample.id 2 := by
  have present : Sample.otherIdentity.row (Sample.id 2) Sample.now ∈ Sample.listings.2.entityIndex.rows := by
    rw [Sample.rows_listings]
    exact List.mem_cons_of_mem _ List.mem_cons_self
  exact entity_scan_complete ((machine Sample.codec).run_replay Db.empty _) Sample.scan_pages
    present rfl

end Collector.Persistence.Projection
