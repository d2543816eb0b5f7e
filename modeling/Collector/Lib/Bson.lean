import Mathlib.Algebra.Ring.Int.Defs
import Mathlib.Data.List.Basic
import Mathlib.Tactic.Common

/-!
Documents of a BSON store, as a driver writes and reads them. A program hands over records of
native values; integers have 64 bits in the store and dates are whole milliseconds, everything
else comes back as it went in. A record is read field by field.
-/

namespace Collector.Lib

/-- A value of the program. An instant counts microseconds. -/
inductive Native where
  | null
  | bool (b : Bool)
  | int (n : Int)
  | str (s : String)
  | uuid (id : Nat)
  | bytes (data : List UInt8)
  | instant (micros : Int)
  | record (fields : List (String × Native))

/-- A value of the store. A date counts milliseconds. -/
inductive Bson where
  | null
  | bool (b : Bool)
  | int64 (n : Int)
  | str (s : String)
  | uuid (id : Nat)
  | binary (data : List UInt8)
  | date (millis : Int)
  | document (fields : List (String × Bson))

abbrev Fields := List (String × Native)

namespace Native

def isNull : Native → Bool
  | null => true
  | _ => false

mutual

/-- The value without the empty fields of its records. -/
def compact : Native → Native
  | record fields => record (compactFields fields)
  | v => v

def compactFields : Fields → Fields
  | [] => []
  | (key, v) :: fields =>
    if v.isNull then compactFields fields else (key, v.compact) :: compactFields fields

end

mutual

/-- `none` for an integer that has no place in the store. -/
def encode : Native → Option Bson
  | null => some .null
  | bool b => some (.bool b)
  | int n => if -2 ^ 63 ≤ n ∧ n < 2 ^ 63 then some (.int64 n) else none
  | str s => some (.str s)
  | uuid id => some (.uuid id)
  | bytes data => some (.binary data)
  | instant micros => some (.date (micros / 1000))
  | record fields => (encodeFields fields).map .document

def encodeFields : Fields → Option (List (String × Bson))
  | [] => some []
  | (key, v) :: fields => do
    let stored ← v.encode
    let others ← encodeFields fields
    return (key, stored) :: others

end

mutual

/-- What comes back: the value with its instants cut to milliseconds. -/
def cut : Native → Native
  | instant micros => instant (micros / 1000 * 1000)
  | record fields => record (cutFields fields)
  | v => v

def cutFields : Fields → Fields
  | [] => []
  | (key, v) :: fields => (key, v.cut) :: cutFields fields

end

end Native

namespace Bson

mutual

def decode : Bson → Native
  | null => .null
  | bool b => .bool b
  | int64 n => .int n
  | str s => .str s
  | uuid id => .uuid id
  | binary data => .bytes data
  | date millis => .instant (millis * 1000)
  | document fields => .record (decodeFields fields)

def decodeFields : List (String × Bson) → Fields
  | [] => []
  | (key, v) :: fields => (key, v.decode) :: decodeFields fields

end

end Bson

/-- A document written to the store and read back. -/
def Fields.stored (fields : Fields) : Option Fields :=
  (Native.encodeFields fields).map Bson.decodeFields

namespace Native

mutual

theorem decode_encode : ∀ {v : Native} {b : Bson}, v.encode = some b → b.decode = v.cut
  | null, _, encoded | bool _, _, encoded | str _, _, encoded | uuid _, _, encoded
  | bytes _, _, encoded | instant _, _, encoded => by
    cases encoded
    simp only [Bson.decode, cut]
  | int n, _, encoded => by
    simp only [encode, Option.ite_none_right_eq_some, Option.some.injEq] at encoded
    obtain ⟨_, rfl⟩ := encoded
    simp only [Bson.decode, cut]
  | record fields, _, encoded => by
    simp only [encode, Option.map_eq_some_iff] at encoded
    obtain ⟨stored, encoded, rfl⟩ := encoded
    simp only [Bson.decode, cut, decodeFields_encodeFields encoded]

theorem decodeFields_encodeFields : ∀ {fields : Fields} {stored : List (String × Bson)},
    encodeFields fields = some stored → Bson.decodeFields stored = cutFields fields
  | [], _, encoded => by
    cases encoded
    simp only [Bson.decodeFields, cutFields]
  | (key, v) :: fields, _, encoded => by
    simp only [encodeFields, Option.bind_eq_bind, Option.bind_eq_some_iff, Option.pure_def,
      Option.some.injEq] at encoded
    obtain ⟨first, one, others, rest, rfl⟩ := encoded
    simp only [Bson.decodeFields, cutFields, decode_encode one, decodeFields_encodeFields rest]

end

theorem isNull_compact (v : Native) : v.compact.isNull = v.isNull := by
  cases v <;> simp only [compact, isNull]

theorem isNull_cut (v : Native) : v.cut.isNull = v.isNull := by
  cases v <;> simp only [cut, isNull]

theorem lookup_cutFields (fields : Fields) (key : String) :
    (cutFields fields).lookup key = (fields.lookup key).map cut := by
  induction fields with
  | nil => rfl
  | cons field fields ih =>
    obtain ⟨name, v⟩ := field
    simp only [cutFields, List.lookup_cons]
    split
    · rfl
    · exact ih

theorem keys_cutFields (fields : Fields) :
    (cutFields fields).map Prod.fst = fields.map Prod.fst := by
  induction fields with
  | nil => rfl
  | cons field fields ih => simp only [cutFields, List.map_cons, ih]

theorem keys_compactFields (fields : Fields) :
    (compactFields fields).map Prod.fst ⊆ fields.map Prod.fst := by
  induction fields with
  | nil => exact List.Subset.refl _
  | cons field fields ih =>
    simp only [compactFields]
    split
    · exact List.subset_cons_of_subset _ ih
    · exact List.cons_subset_cons _ ih

theorem lookup_eq_none_of_notMem {α : Type} {fields : List (String × α)} {key : String}
    (absent : key ∉ fields.map Prod.fst) : fields.lookup key = none := by
  rw [List.lookup_eq_none_iff]
  intro field member
  have other : field.1 ≠ key := fun same => absent (same ▸ List.mem_map_of_mem member)
  simpa using Ne.symm other

/-- A field that is dropped and one that was never there read the same. -/
theorem lookup_compactFields {fields : Fields} (distinct : (fields.map Prod.fst).Nodup)
    (key : String) :
    (compactFields fields).lookup key =
      ((fields.lookup key).filter fun v => !v.isNull).map compact := by
  induction fields with
  | nil => rfl
  | cons field fields ih =>
    obtain ⟨name, v⟩ := field
    obtain ⟨fresh, distinct⟩ := List.nodup_cons.mp distinct
    have rest := ih distinct
    simp only [compactFields, List.lookup_cons]
    by_cases here : key = name
    · subst here
      have gone : (compactFields fields).lookup key = none :=
        lookup_eq_none_of_notMem fun member => fresh (keys_compactFields fields member)
      cases empty : v.isNull <;> simp [empty, gone, Option.filter]
    · have other : (key == name) = false := by simpa using here
      cases empty : v.isNull <;> simp [List.lookup_cons, other, rest]

end Native

section Reading
variable {α β : Type} {fields stored : Fields} {key : String}

/-- A field that has to be there. -/
def Fields.required (fields : Fields) (key : String) (read : Native → Option α) : Option α :=
  (fields.lookup key).bind read

/-- A field that may be left out or empty. -/
def Fields.optional (fields : Fields) (key : String) (read : Native → Option α) :
    Option (Option α) :=
  match (fields.lookup key).filter fun v => !v.isNull with
  | none => some none
  | some v => (read v).map some

/-- No field has another name. -/
def Fields.within (fields : Fields) (keys : List String) : Bool :=
  fields.all fun field => field.1 ∈ keys

namespace Native

/-- A field without a value is written empty. -/
def maybe (write : α → Native) : Option α → Native
  | none => null
  | some a => write a

def asBool : Native → Option Bool
  | bool b => some b
  | _ => none

def asInt : Native → Option Int
  | int n => some n
  | _ => none

def asStr : Native → Option String
  | str s => some s
  | _ => none

def asUuid : Native → Option Nat
  | uuid id => some id
  | _ => none

def asBytes : Native → Option (List UInt8)
  | bytes data => some data
  | _ => none

def asInstant : Native → Option Int
  | instant micros => some micros
  | _ => none

end Native

open Native

/-- What comes back from the store has lost nothing but the fractions of its milliseconds. -/
theorem eq_cutFields_of_stored (kept : fields.stored = some stored) : stored = cutFields fields := by
  obtain ⟨encoded, written, rfl⟩ := Option.map_eq_some_iff.mp kept
  exact decodeFields_encodeFields written

/-- A document without its empty fields, as it comes back. -/
def Fields.kept (fields : Fields) : Fields := cutFields (compactFields fields)

theorem within_kept {keys : List String} (named : fields.map Prod.fst ⊆ keys) :
    fields.kept.within keys = true := by
  refine List.all_eq_true.mpr fun field member => decide_eq_true ?_
  have key : field.1 ∈ fields.kept.map Prod.fst := List.mem_map_of_mem member
  rw [Fields.kept, keys_cutFields] at key
  exact named (keys_compactFields fields key)

theorem lookup_kept (distinct : (fields.map Prod.fst).Nodup) (key : String) :
    fields.kept.lookup key =
      ((fields.lookup key).filter fun v => !v.isNull).map fun v => v.compact.cut := by
  rw [Fields.kept, lookup_cutFields, lookup_compactFields distinct, Option.map_map]
  rfl

theorem required_kept (distinct : (fields.map Prod.fst).Nodup) {v : Native}
    (here : fields.lookup key = some v) (filled : v.isNull = false) (read : Native → Option α) :
    fields.kept.required key read = read v.compact.cut := by
  simp [Fields.required, lookup_kept distinct, here, filled, Option.filter]

theorem optional_kept (distinct : (fields.map Prod.fst).Nodup) {w : α → Native}
    {value : Option α} (here : fields.lookup key = some (maybe w value))
    {read : Native → Option β} {back : α → β}
    (reads : ∀ a, read (w a).compact.cut = some (back a))
    (filled : ∀ a, (w a).isNull = false) :
    fields.kept.optional key read = some (value.map back) := by
  unfold Fields.optional
  rw [lookup_kept distinct, here]
  cases value with
  | none => simp [maybe, isNull, Option.filter]
  | some a => simp [maybe, filled, Option.filter, isNull_cut, isNull_compact, reads]

end Reading

end Collector.Lib
