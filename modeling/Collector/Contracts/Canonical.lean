import Collector.Lib.JsonOrder
import Collector.Persistence.Core

/-!
Canonical serialization: the JSON bytes that hashes and events are made of. Unicode normalisation
is a parameter, and so is the text of floats. A `str` is a sequence of Unicode scalar values; the
limits of the interpreter on the depth of a recursion and on the digits of an integer are not
modelled.
-/

namespace Collector.Contracts
open Collector.Lib
open Collector.Persistence (Bytes utf8)

/-- The Python values that are encoded. An `Enum` stands here as its value and a model as its
`model_dump`. -/
inductive Value (F : Type) where
  | none
  | bool (b : Bool)
  | int (i : Int)
  | float (x : F)
  /-- A NaN or an infinity. -/
  | nonFinite (text : String)
  | str (s : String)
  /-- Wall clock in microseconds, and the offset from UTC unless the datetime is naive. -/
  | datetime (wall : Int) (offset : Option Int)
  | uuid (id : Persistence.Uuid)
  | list (items : List (Value F))
  | mapping (entries : List (String × Value F))
  deriving Repr

/-- `CanonicalEncodingError`, by what has no canonical representation. -/
inductive CanonicalEncodingError where
  | nonFinite (text : String)
  | naive (wall : Int)
  | notUtc (offset wall : Int)
  | duplicateKey (key : String)
  deriving DecidableEq, Repr

/-- Year, month and day of a number of days since 1970-01-01. -/
def civil (days : Int) : Int × Int × Int :=
  let shifted := days + 719468
  let dayOfEra := shifted % 146097
  let yearOfEra := (dayOfEra - dayOfEra / 1460 + dayOfEra / 36524 - dayOfEra / 146096) / 365
  let dayOfYear := dayOfEra - (365 * yearOfEra + yearOfEra / 4 - yearOfEra / 100)
  -- The year of this count starts in March.
  let march := (5 * dayOfYear + 2) / 153
  let month := if march < 10 then march + 3 else march - 9
  let year := yearOfEra + shifted / 146097 * 400
  (if month ≤ 2 then year + 1 else year, month, dayOfYear - (153 * march + 2) / 5 + 1)

def padded (width : Nat) (n : Int) : String :=
  let digits := Nat.toDigits 10 n.toNat
  .ofList (List.replicate (width - digits.length) '0' ++ digits)

/-- `value.isoformat(timespec="microseconds")` of a wall clock. -/
def isoformat (wall : Int) : String :=
  let (year, month, day) := civil (wall / 86400000000)
  let time := wall % 86400000000
  padded 4 year ++ "-" ++ padded 2 month ++ "-" ++ padded 2 day ++ "T" ++
    padded 2 (time / 3600000000) ++ ":" ++ padded 2 (time / 60000000 % 60) ++ ":" ++
    padded 2 (time / 1000000 % 60) ++ "." ++ padded 6 (time % 1000000)

def formatUtcDatetime (wall : Int) (offset : Option Int) : Except CanonicalEncodingError String := do
  match offset with
  | .none => throw (.naive wall)
  | some offset =>
    if offset ≠ 0 then throw (.notUtc offset wall)
    return isoformat wall ++ "Z"

/-- `str` of a UUID. -/
def uuidText (id : Persistence.Uuid) : String :=
  .ofList ((List.range 32).flatMap fun i =>
    let digit := Nat.digitChar (id / 16 ^ (31 - i) % 16)
    if i ∈ [8, 12, 16, 20] then ['-', digit] else [digit])

example : isoformat 1790000000000001 = "2026-09-21T14:13:20.000001" := by decide +kernel
example : uuidText 1 = "00000000-0000-0000-0000-000000000001" := by decide +kernel

section Encoding
variable {F : Type} (floats : FloatText F) (nfc : String → String)

mutual

def toCanonicalValue : Value F → Except CanonicalEncodingError (Json F)
  | .none => return .null
  | .bool b => return .bool b
  | .int i => return .int i
  | .float x => return .float x
  | .nonFinite text => throw (.nonFinite text)
  | .str s => return .str (nfc s)
  | .datetime wall offset => do return .str (← formatUtcDatetime wall offset)
  | .uuid id => return .str (uuidText id)
  | .list items => do return .arr (← canonicalItems items)
  | .mapping entries => do return .obj (← canonicalEntries entries [])

def canonicalItems : List (Value F) → Except CanonicalEncodingError (List (Json F))
  | [] => return []
  | item :: items => do
    let tree ← toCanonicalValue item
    return tree :: (← canonicalItems items)

/-- The loop over a mapping's entries; `result` is what it has built so far. -/
def canonicalEntries : List (String × Value F) → List (String × Json F) →
    Except CanonicalEncodingError (List (String × Json F))
  | [], result => return result
  | (key, item) :: entries, result => do
    let nfcKey := nfc key
    if nfcKey ∈ result.map Prod.fst then
      throw (.duplicateKey nfcKey)
    let tree ← toCanonicalValue item
    canonicalEntries entries (result ++ [(nfcKey, tree)])

end

def canonicalJsonBytes (value : Value F) : Except CanonicalEncodingError Bytes := do
  let tree ← toCanonicalValue nfc value
  return utf8 (.ofList (tree.sortKeys.text floats))

end Encoding

section Strict
variable {F : Type}

mutual

/-- A strict JSON value as a Python value. -/
def ofJson : Json F → Value F
  | .null => .none
  | .bool b => .bool b
  | .int i => .int i
  | .float x => .float x
  | .str s => .str s
  | .arr items => .list (ofJsonItems items)
  | .obj entries => .mapping (ofJsonEntries entries)

def ofJsonItems : List (Json F) → List (Value F)
  | [] => []
  | item :: items => ofJson item :: ofJsonItems items

def ofJsonEntries : List (String × Json F) → List (String × Value F)
  | [] => []
  | (key, item) :: entries => (key, ofJson item) :: ofJsonEntries entries

end

/-- `json.loads` of UTF-8 bytes. -/
def parseJson (floats : FloatText F) (bytes : Bytes) : Option (Json F) :=
  (String.fromUTF8? ⟨bytes.toArray⟩).bind fun text => Json.read floats text.toList

end Strict
end Collector.Contracts
