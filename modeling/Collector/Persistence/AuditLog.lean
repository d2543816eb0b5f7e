import Collector.Lib.RelyGuarantee
import Collector.Persistence.Core
import Mathlib.Data.List.Sort

/-!
`append_audit` inside the caller's transaction, with the columns of `audit_log` as the
control-plane repositories fill them. Its idempotence is best effort: the table has no unique
index on the key, so the check is a plain read.
-/

namespace Collector.Persistence
open Collector.Lib

structure AuditRow where
  auditId : Uuid
  createdAt : Time
  actor : String
  action : String
  resourceType : String
  resourceId : String
  beforeState : Option (List (String × AuditValue))
  afterState : Option (List (String × AuditValue))
  requestId : Option String
  idempotencyKey : Option String
  deriving DecidableEq, Repr

def AuditRow.admissible (row : AuditRow) : Bool :=
  fits 128 (some row.actor) && fits 128 (some row.action) && fits 64 (some row.resourceType) &&
    fits 512 (some row.resourceId) && fits 128 row.requestId && fits 512 row.idempotencyKey

section
variable {σ κ ε : Type}

/-- The oldest row with the key. -/
def auditFor (log : List AuditRow) (key : Option String) : Option AuditRow :=
  match key with
  | none => none
  | some _ =>
    ((log.filter fun row => row.idempotencyKey = key).insertionSort
      fun a b => a.createdAt ≤ b.createdAt).head?

def appendAuditRow (log : σ → List AuditRow) (add : AuditRow → σ → σ) (refused : ε)
    (row : AuditRow) : Txn σ κ ε AuditRow := do
  match auditFor (log (← .view)) row.idempotencyKey with
  | some existing => return existing
  | none =>
    .ensure row.admissible refused
    .modify (add row)
    return row

/-- Without a key the row is always appended. -/
theorem wp_appendAuditRow {β : Type} {d : Discipline σ κ} {Q : Ending σ κ ε β} {log : σ → List AuditRow}
    {add : AuditRow → σ → σ} {refused : ε} {row : AuditRow} {f : AuditRow → Txn σ κ ε β}
    {held : List (κ × LockMode)} {pending : σ → σ} {c : σ} (unkeyed : row.idempotencyKey = none)
    (refuses : ∀ c', d.inv c' → Q (.error refused) held pending c')
    (appends : ∀ c', d.inv c' → d.rely held c c' → d.wp Q (f row) held (add row ∘ pending) c') :
    d.wp Q (appendAuditRow log add refused row >>= f) held pending c := by
  rw [Discipline.wp_bind, appendAuditRow, Discipline.wp_view]
  intro c₁ valid₁ moved₁
  rw [unkeyed]
  change d.wp _ (Txn.ensure _ _ >>= fun _ => _) _ _ _
  rw [Discipline.wp_ensure]
  refine ⟨fun _ => ?_, fun _ => refuses c₁ valid₁⟩
  rw [Discipline.wp_modify]
  intro c₂ valid₂ moved₂
  exact appends c₂ valid₂ (d.trans _ _ _ _ moved₁ moved₂)

end
end Collector.Persistence
