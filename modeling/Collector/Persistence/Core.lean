import Collector.Lib.Machine
import Mathlib.Data.List.MinMax
import Mathlib.Tactic.Common
import Mathlib.Algebra.Order.Ring.Int

/-!
What every PostgreSQL repository shares: identifiers, the application clock, typed errors,
lease statuses, the audit log and the rules for the next attempt. A `now` argument is the
instant `resolve_now` returned, so it is aware and in UTC; a naive one raises before the first
statement.
-/

namespace Collector.Persistence
open Collector.Lib

/-- A UUID as its 128-bit value; PostgreSQL and Python order UUIDs by it. -/
abbrev Uuid := Nat

/-- `new_entity_id`: `draw` is what the clock and the random bits give, and a value that was
already handed out never comes back. -/
def newEntityId (issued : List Uuid) (draw : Uuid) : Uuid :=
  if draw ∈ issued then issued.foldr max 0 + 1 else draw

theorem newEntityId_not_mem (issued : List Uuid) (draw : Uuid) :
    newEntityId issued draw ∉ issued := by
  unfold newEntityId
  split
  · intro known
    exact Nat.not_succ_le_self _ (List.le_max_of_le' 0 known le_rfl)
  · assumption

/-- An instant in microseconds. -/
abbrev Time := Int

/-- `timedelta(seconds=n)`. -/
def seconds (n : Int) : Time := n * 1000000

inductive JobStatus where
  | pending
  | leased
  | succeeded
  | retry
  | quarantined
  deriving DecidableEq, Repr

/-- `CLAIMABLE_JOB_STATUSES` and `CLAIMABLE_PROJECTION_STATUSES`. -/
def JobStatus.claimable : JobStatus → Bool
  | .pending | .retry => true
  | _ => false

/-- `TERMINAL_JOB_STATUSES` and `TERMINAL_TASK_STATUSES`. -/
def JobStatus.terminal : JobStatus → Bool
  | .succeeded | .quarantined => true
  | _ => false

/-- What a repository call raises. The fields are the values its message interpolates. -/
inductive PersistenceError where
  /-- `ValueError` about a parameter. -/
  | valueError (parameter : String)
  /-- A constraint or a column type of the table refused a row. -/
  | integrityError (table : String)
  /-- `NotFoundError`. -/
  | notFound (table : String) (id : Uuid)
  /-- `LeaseNotOwnedError`: another owner, or the row is not leased. -/
  | leaseNotOwned (id : Uuid) (owner : String)
  /-- `LeaseNotOwnedError` of an operator call on a finished row. -/
  | alreadyTerminal (id : Uuid) (status : JobStatus)
  /-- `InvalidValueError`. -/
  | invalidValue (fields : List String)
  /-- `InvalidTransitionError`. -/
  | invalidTransition (id : Uuid)
  /-- `ConflictError` and the columns that disagree. -/
  | conflict (id : Uuid) (fields : List String)
  /-- `NotFoundError` of an upload claim. -/
  | claimNotFound (objectKey : String)
  /-- `StaleClaimError`. -/
  | staleClaim (objectKey : String)
  deriving DecidableEq, Repr

def truncate (message : Option String) (limit : Nat) : Option String :=
  message.map fun text =>
    if text.length ≤ limit then text else String.ofList (text.toList.take (limit - 1)) ++ "…"

/-- A `varchar(limit)` column that may be null. -/
def fits (limit : Nat) (text : Option String) : Bool :=
  match text with
  | none => true
  | some text => decide (text.length ≤ limit)

/-- A `smallint` or `integer` column of the given width. -/
def inRange (bits : Nat) (n : Int) : Bool := decide (-2 ^ (bits - 1) ≤ n ∧ n < 2 ^ (bits - 1))

abbrev Bytes := List UInt8

def utf8 (text : String) : Bytes := text.toUTF8.data.toList

/-- `^[0-9a-f]{64}$`, read off the bytes of the text. -/
def isSha256Hex (text : String) : Bool :=
  decide ((utf8 text).length = 64) && (utf8 text).all fun byte =>
    decide (0x30 ≤ byte ∧ byte ≤ 0x39) || decide (0x61 ≤ byte ∧ byte ≤ 0x66)

/-- `str.isspace` for one character. -/
def isSpace (c : Char) : Bool :=
  c.toNat ∈ [0x20, 0x85, 0xa0, 0x1680, 0x2028, 0x2029, 0x202f, 0x205f, 0x3000] ||
    decide (0x09 ≤ c.toNat ∧ c.toNat ≤ 0x0d) || decide (0x1c ≤ c.toNat ∧ c.toNat ≤ 0x1f) ||
    decide (0x2000 ≤ c.toNat ∧ c.toNat ≤ 0x200a)

/-- `value is None or not value.strip()`. -/
def blank (value : Option String) : Bool :=
  match value with
  | none => true
  | some text => text.toList.all isSpace

def requireAuditContext (actor reason : Option String) :
    Except PersistenceError Unit := do
  ensure (!blank actor) (.invalidValue ["actor"])
  ensure (!blank reason) (.invalidValue ["reason"])

inductive AuditValue where
  | null
  | int (n : Int)
  | text (s : String)
  | status (s : JobStatus)
  | time (t : Time)
  deriving DecidableEq, Repr

/-- A row of `audit_log`; its generated id is never read back here. -/
structure AuditEntry where
  actor : String
  action : String
  resourceType : String
  resourceId : Uuid
  before : List (String × AuditValue)
  after : List (String × AuditValue)
  requestId : Option String
  createdAt : Time
  deriving DecidableEq, Repr

def AuditEntry.admissible (entry : AuditEntry) : Bool :=
  fits 128 (some entry.actor) && fits 128 entry.requestId

def appendAudit (log : List AuditEntry) (entry : AuditEntry) :
    Except PersistenceError (List AuditEntry) := do
  ensure entry.admissible (.integrityError "audit_log")
  return log ++ [entry]

/-- `clamp_not_before`: a moment in the past becomes `now`. -/
def clampNotBefore (notBefore : Option Time) (now : Time) : Time :=
  match notBefore with
  | none => now
  | some bound => if bound < now then now else bound

/-- `BackoffPolicy.delay_for` with its random source fixed. The delay is computed in floating
point, so the model takes the function itself and assumes nothing about it. -/
abbrev Backoff := Int → Time

def nextAttemptAt (now : Time) (attempt : Int) (policy : Backoff) (notBefore : Option Time) :
    Time :=
  match notBefore with
  | some _ => clampNotBefore notBefore now
  | none => now + policy attempt

end Collector.Persistence
