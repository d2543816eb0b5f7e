import Collector.Contracts.Canonical
import Collector.Lib.Table
import Collector.Persistence.AuditLog

/-!
`upsert_cursor`: where the system goes on with the traversal of a source. The value before is read
by a statement of its own; the insertion or update comes after it, and so does the audit row.
-/

namespace Collector.Persistence.Cursors
open Collector.Lib Collector.Persistence
open Collector.Contracts (uuidText)

/-- The columns of the unique index of `source_cursors`. -/
structure CursorPlace where
  sourceId : Uuid
  cursorKind : String
  cursorKey : String
  deriving DecidableEq, Repr

structure SourceCursor extends CursorPlace where
  id : Uuid
  routeId : Option Uuid
  cursorValue : String
  cursorAt : Option Time
  revision : Int
  createdAt : Time
  updatedAt : Time
  deriving DecidableEq, Repr

def SourceCursor.admissible (cursor : SourceCursor) : Bool :=
  fits 32 (some cursor.cursorKind) && fits 1024 (some cursor.cursorKey) &&
    fits 4096 (some cursor.cursorValue) && inRange 64 cursor.revision

structure CursorDb where
  cursors : Table SourceCursor.toCursorPlace
  audit : List AuditRow

inductive CursorError where
  /-- `InvalidValueError`. -/
  | invalidValue (field : String)
  | integrityError (table : String)
  /-- `NotFoundError` of a cursor. -/
  | cursorNotFound (place : CursorPlace)
  deriving DecidableEq, Repr

/-- The index entry of a cursor stands for its row. -/
abbrev CursorTxn := Txn CursorDb CursorPlace CursorError

/-- The parameters of `upsert_cursor` next to the place, with what the clock and the id generator
give. -/
structure CursorUpsert where
  cursorValue : String
  actor : String
  reason : String
  routeId : Option Uuid
  cursorAt : Option Time
  requestId : Option String
  id : Uuid
  auditId : Uuid
  now : Time
  deriving DecidableEq, Repr

/-- The row of the `INSERT`; `revision` is the default of the column. -/
def CursorUpsert.row (u : CursorUpsert) (place : CursorPlace) : SourceCursor :=
  { place with
    id := u.id, routeId := u.routeId, cursorValue := u.cursorValue, cursorAt := u.cursorAt
    revision := 1, createdAt := u.now, updatedAt := u.now }

/-- The row of `DO UPDATE SET`. -/
def CursorUpsert.onto (u : CursorUpsert) (cursor : SourceCursor) : SourceCursor :=
  { cursor with
    routeId := u.routeId, cursorValue := u.cursorValue, cursorAt := u.cursorAt
    revision := cursor.revision + 1, updatedAt := u.now }

/-- The condition of `DO UPDATE` fails: nothing would change. -/
def CursorUpsert.repeats (u : CursorUpsert) (cursor : SourceCursor) : Bool :=
  decide (cursor.cursorValue = u.cursorValue ∧ cursor.cursorAt = u.cursorAt ∧ cursor.routeId = u.routeId)

/-- `source_cursor.upsert`. -/
def CursorUpsert.audit (u : CursorUpsert) (beforeValue : Option String) (cursor : SourceCursor) :
    AuditRow where
  auditId := u.auditId
  createdAt := u.now
  actor := u.actor
  action := "source_cursor.upsert"
  resourceType := "source_cursor"
  resourceId := uuidText cursor.id
  beforeState := some [("cursor_value", (beforeValue.map AuditValue.text).getD .null)]
  afterState := some [
    ("cursor_kind", .text cursor.cursorKind), ("cursor_key", .text cursor.cursorKey),
    ("cursor_value", .text cursor.cursorValue), ("revision", .int cursor.revision),
    ("reason", .text u.reason)]
  requestId := u.requestId
  idempotencyKey := none

def appendCursorAudit (row : AuditRow) : CursorTxn AuditRow :=
  appendAuditRow CursorDb.audit (fun row db => { db with audit := db.audit ++ [row] })
    (.integrityError "audit_log") row

/-- `INSERT … ON CONFLICT DO UPDATE … WHERE … RETURNING` once it has the entry of the index, and what
follows: the audit row of a change, or the row as it is. -/
def upsertStatement (place : CursorPlace) (u : CursorUpsert) (beforeValue : Option String) :
    CursorTxn SourceCursor := do
  match (← .view).cursors.find? place with
  | none =>
    .modify fun db => { db with cursors := db.cursors.insert (u.row place) }
    let _ ← appendCursorAudit (u.audit beforeValue (u.row place))
    return u.row place
  | some cursor =>
    if u.repeats cursor then
      match (← .view).cursors.find? place with
      | none => .raise (.cursorNotFound place)
      | some unchanged => return unchanged
    else
      .ensure (u.onto cursor).admissible (.integrityError "source_cursors")
      .modify fun db => { db with cursors := db.cursors.put (u.onto cursor) }
      let _ ← appendCursorAudit (u.audit beforeValue (u.onto cursor))
      return u.onto cursor

/-- `upsert_cursor`. -/
def upsertCursor (place : CursorPlace) (u : CursorUpsert) : CursorTxn SourceCursor := do
  .ensure (!blank (some u.actor)) (.invalidValue "actor")
  .ensure (!blank (some u.reason)) (.invalidValue "reason")
  let beforeValue := ((← .view).cursors.find? place).map SourceCursor.cursorValue
  .ensure (u.row place).admissible (.integrityError "source_cursors")
  .locked .update place
  upsertStatement place u beforeValue

abbrev CursorEnded := Ended CursorDb CursorError SourceCursor CursorUpsert

abbrev CursorSystem := System CursorDb CursorPlace CursorError SourceCursor CursorUpsert

end Collector.Persistence.Cursors
