import Collector.Contracts.Equality

/-!
Dumped values compared, and what the comparison says of the canonical bytes. `Faithful` holds of two
values when equal dumps mean equal bytes; it is kept by lists, records and optional fields, and it
holds of JSON values that do not clash.
-/

namespace Collector.Contracts
open Collector.Lib
open Collector.Persistence (Bytes utf8)

variable {F : Type}

section Dump
variable (dumpDatetime : Int → Option Int → String)

mutual

/-- `model_dump(mode="json")` of a value; the text of a datetime is pydantic's. -/
def dumpJson : Value F → Json F
  | .none => .null
  | .bool b => .bool b
  | .int i => .int i
  | .float x => .float x
  | .nonFinite _ => .null
  | .str s => .str s
  | .datetime wall offset => .str (dumpDatetime wall offset)
  | .uuid id => .str (uuidText id)
  | .list items => .arr (dumpItems items)
  | .mapping entries => .obj (dumpEntries entries)

def dumpItems : List (Value F) → List (Json F)
  | [] => []
  | item :: items => dumpJson item :: dumpItems items

def dumpEntries : List (String × Value F) → List (String × Json F)
  | [] => []
  | (key, item) :: entries => (key, dumpJson item) :: dumpEntries entries

end

attribute [grind =] dumpJson dumpItems dumpEntries

variable {dumpDatetime}

theorem dumpItems_eq (items : List (Value F)) :
    dumpItems dumpDatetime items = items.map (dumpJson dumpDatetime) := by
  induction items with
  | nil => simp [dumpItems]
  | cons item items ih => simp [dumpItems, ih]

theorem dumpEntries_eq (entries : List (String × Value F)) :
    dumpEntries dumpDatetime entries =
      entries.map fun entry => (entry.1, dumpJson dumpDatetime entry.2) := by
  induction entries with
  | nil => simp [dumpEntries]
  | cons entry entries ih => simp [dumpEntries, ih]

theorem ofJsonItems_eq (items : List (Json F)) : ofJsonItems items = items.map ofJson := by
  induction items with
  | nil => simp [ofJsonItems]
  | cons item items ih => simp [ofJsonItems, ih]

theorem ofJsonEntries_eq (entries : List (String × Json F)) :
    ofJsonEntries entries = entries.map fun entry => (entry.1, ofJson entry.2) := by
  induction entries with
  | nil => simp [ofJsonEntries]
  | cons entry entries ih => simp [ofJsonEntries, ih]

/-- A JSON value is dumped as itself. -/
theorem dumpJson_ofJson (v : Json F) : dumpJson dumpDatetime (ofJson v) = v := by
  induction v using Json.induct with
  | null | bool | int | float | str => simp only [ofJson, dumpJson]
  | arr items ih =>
    simp only [ofJson, dumpJson, dumpItems_eq, ofJsonItems_eq, List.map_map]
    exact congrArg _ ((List.map_congr_left ih).trans (List.map_id _))
  | obj entries ih =>
    simp only [ofJson, dumpJson, dumpEntries_eq, ofJsonEntries_eq, List.map_map]
    refine congrArg _ ((List.map_congr_left fun entry member => ?_).trans (List.map_id _))
    exact Prod.ext rfl (ih entry member)

end Dump

/-- Both encodings raise, or both are written as one text. -/
def Agree (left right : Except CanonicalEncodingError (Json F)) : Prop :=
  (∃ v w, left = .ok v ∧ right = .ok w ∧ v.sortKeys = w.sortKeys) ∨
    ∃ e e', left = .error e ∧ right = .error e'

theorem Agree.refl (result : Except CanonicalEncodingError (Json F)) : Agree result result := by
  cases result with
  | ok v => exact .inl ⟨v, v, rfl, rfl, rfl⟩
  | error e => exact .inr ⟨e, e, rfl, rfl⟩

/-- The bytes of two values are the same, or neither has any. -/
def SameBytes (floats : FloatText F) (nfc : String → String) (v w : Value F) : Prop :=
  (∃ bytes, canonicalJsonBytes floats nfc v = .ok bytes ∧
    canonicalJsonBytes floats nfc w = .ok bytes) ∨
  ∃ e e', canonicalJsonBytes floats nfc v = .error e ∧ canonicalJsonBytes floats nfc w = .error e'

theorem Agree.sameBytes {floats : FloatText F} {nfc : String → String} {v w : Value F}
    (agree : Agree (toCanonicalValue nfc v) (toCanonicalValue nfc w)) : SameBytes floats nfc v w := by
  unfold SameBytes canonicalJsonBytes
  rcases agree with ⟨a, b, first, second, same⟩ | ⟨e, e', first, second⟩
  · rw [first, second]
    refine .inl ⟨_, rfl, ?_⟩
    simp only [bind, Except.bind, pure, Except.pure, same]
  · rw [first, second]
    exact .inr ⟨e, e', rfl, rfl⟩

theorem SameBytes.refl {floats : FloatText F} {nfc : String → String} (v : Value F) :
    SameBytes floats nfc v v := Agree.sameBytes (.refl _)

theorem SameBytes.trans {floats : FloatText F} {nfc : String → String} {u v w : Value F}
    (first : SameBytes floats nfc u v) (second : SameBytes floats nfc v w) :
    SameBytes floats nfc u w := by
  rcases first with ⟨bytes, left, middle⟩ | ⟨e, e', left, middle⟩
  · rcases second with ⟨bytes', middle', right⟩ | ⟨_, _, middle', _⟩
    · rw [middle] at middle'
      cases middle'
      exact .inl ⟨bytes, left, right⟩
    · rw [middle] at middle'
      cases middle'
  · rcases second with ⟨_, middle', _⟩ | ⟨_, e'', _, right⟩
    · rw [middle] at middle'
      cases middle'
    · exact .inr ⟨e, e'', left, right⟩

section Faithful
variable (value : F → ℚ) (dumpDatetime : Int → Option Int → String) (nfc : String → String)

/-- If the dumps are equal the values are written alike. -/
def Faithful (v w : Value F) : Prop :=
  pyEq value (dumpJson dumpDatetime v) (dumpJson dumpDatetime w) = true →
    Agree (toCanonicalValue nfc v) (toCanonicalValue nfc w)

variable {value dumpDatetime nfc}

theorem Faithful.json {v w : Json F} (left : v.Distinct) (right : w.Distinct)
    (apart : ¬ Clash value v w) : Faithful value dumpDatetime nfc (ofJson v) (ofJson w) := by
  intro equal
  rw [dumpJson_ofJson, dumpJson_ofJson] at equal
  have alike : Json.Alike nfc v w := (reordered_of_pyEq left right equal apart).alike
  cases first : toCanonicalValue nfc (ofJson v) with
  | ok tree =>
    obtain ⟨other, encodes, same⟩ :=
      Arranges.of_alike alike ⟨tree, toCanonicalValue_eq_ok.mp first, rfl⟩
    exact .inl ⟨tree, other, rfl, toCanonicalValue_eq_ok.mpr encodes, same⟩
  | error e =>
    cases second : toCanonicalValue nfc (ofJson w) with
    | ok tree =>
      obtain ⟨other, encodes, _⟩ :=
        Arranges.of_alike alike.symm ⟨tree, toCanonicalValue_eq_ok.mp second, rfl⟩
      rw [toCanonicalValue_eq_ok.mpr encodes] at first
      cases first
    | error e' => exact .inr ⟨e, e', rfl, rfl⟩

theorem Faithful.str (s t : String) : Faithful value dumpDatetime nfc (.str s) (.str t) := by
  intro equal
  simp only [dumpJson, pyEq, decide_eq_true_eq] at equal
  rw [equal]
  exact .refl _

theorem Faithful.int (i j : Int) : Faithful value dumpDatetime nfc (.int i) (.int j) := by
  intro equal
  simp only [dumpJson, pyEq, numeric, decide_eq_true_eq, Option.some.injEq, Rat.intCast_inj] at equal
  rw [equal]
  exact .refl _

theorem Faithful.uuid (i j : Persistence.Uuid) : Faithful value dumpDatetime nfc (.uuid i) (.uuid j) := by
  intro equal
  simp only [dumpJson, pyEq, decide_eq_true_eq] at equal
  simp only [toCanonicalValue, equal]
  exact .refl _

/-- Pydantic writes different instants differently. -/
theorem Faithful.datetime
    (injective : ∀ s t, dumpDatetime s (some 0) = dumpDatetime t (some 0) → s = t) (s t : Int) :
    Faithful value dumpDatetime nfc (.datetime s (some 0)) (.datetime t (some 0)) := by
  intro equal
  simp only [dumpJson, pyEq, decide_eq_true_eq] at equal
  rw [injective s t equal]
  exact .refl _

/-- A field that may be `None`. -/
def optional {α : Type} (f : α → Value F) : Option α → Value F
  | some x => f x
  | none => .none

private theorem pyEq_null {v : Json F} : pyEq value v .null = true ↔ v = .null := by
  cases v <;> simp [pyEq, numeric]

theorem Faithful.optional {α : Type} {f : α → Value F} {x y : Option α}
    (each : ∀ a ∈ x, ∀ b ∈ y, Faithful value dumpDatetime nfc (f a) (f b))
    (present : ∀ x, dumpJson dumpDatetime (f x) ≠ .null) :
    Faithful value dumpDatetime nfc (Contracts.optional f x) (Contracts.optional f y) := by
  cases x with
  | none =>
    cases y with
    | none => exact fun _ => .refl _
    | some y =>
      intro equal
      simp only [Contracts.optional, dumpJson, pyEq] at equal
      split at equal
      · exact absurd (by assumption) (present y)
      · cases equal
  | some x =>
    cases y with
    | none =>
      intro equal
      exact absurd (pyEq_null.mp equal) (present x)
    | some y => exact each x rfl y rfl

variable (nfc) in
private theorem agree_items {items others : List (Value F)}
    (each : List.Forall₂ (fun v w => Agree (toCanonicalValue nfc v) (toCanonicalValue nfc w))
      items others) :
    (∃ vs ws, canonicalItems nfc items = .ok vs ∧ canonicalItems nfc others = .ok ws ∧
      vs.map Json.sortKeys = ws.map Json.sortKeys) ∨
    ∃ e e', canonicalItems nfc items = .error e ∧ canonicalItems nfc others = .error e' := by
  induction each with
  | nil => exact .inl ⟨[], [], by rw [canonicalItems]; rfl, by rw [canonicalItems]; rfl, rfl⟩
  | @cons item other items others first _ ih =>
    simp only [canonicalItems]
    rcases first with ⟨v, w, left, right, same⟩ | ⟨e, e', left, right⟩
    · rw [left, right]
      rcases ih with ⟨vs, ws, left', right', same'⟩ | ⟨e, e', left', right'⟩
      · rw [left', right']
        exact .inl ⟨v :: vs, w :: ws, rfl, rfl, by rw [List.map_cons, List.map_cons, same, same']⟩
      · rw [left', right']
        exact .inr ⟨e, e', rfl, rfl⟩
    · rw [left, right]
      exact .inr ⟨e, e', rfl, rfl⟩

theorem Faithful.list {α : Type} {f : α → Value F}
    (each : ∀ x y, Faithful value dumpDatetime nfc (f x) (f y)) (xs ys : List α) :
    Faithful value dumpDatetime nfc (.list (xs.map f)) (.list (ys.map f)) := by
  intro equal
  simp only [dumpJson, dumpItems_eq, pyEq, pyEqItems_iff, List.forall₂_map_left_iff,
    List.forall₂_map_right_iff] at equal
  have agree := agree_items nfc (List.forall₂_map_left_iff.mpr
    (List.forall₂_map_right_iff.mpr (equal.imp fun x y same => each x y same)))
  unfold Agree
  simp only [toCanonicalValue]
  rcases agree with ⟨vs, ws, left, right, same⟩ | ⟨e, e', left, right⟩
  · rw [left, right]
    refine .inl ⟨_, _, rfl, rfl, ?_⟩
    rw [Json.sortKeys_arr, Json.sortKeys_arr, same]
  · rw [left, right]
    exact .inr ⟨e, e', rfl, rfl⟩

/-- An entry of a written object, its value in order. -/
private def inOrder (entry : String × Json F) : String × Json F := (entry.1, entry.2.sortKeys)

private theorem map_fst_of_inOrder {entries others : List (String × Json F)}
    (same : entries.map inOrder = others.map inOrder) :
    entries.map Prod.fst = others.map Prod.fst := by
  have first := congrArg (List.map Prod.fst) same
  simpa [inOrder, List.map_map, Function.comp_def] using first

variable (nfc) in
private theorem agree_entries {entries others : List (String × Value F)}
    (each : List.Forall₂ (fun entry other => entry.1 = other.1 ∧
      Agree (toCanonicalValue nfc entry.2) (toCanonicalValue nfc other.2)) entries others)
    (result result' : List (String × Json F)) (built : result.map inOrder = result'.map inOrder) :
    (∃ out out', canonicalEntries nfc entries result = .ok out ∧
      canonicalEntries nfc others result' = .ok out' ∧ out.map inOrder = out'.map inOrder) ∨
    ∃ e e', canonicalEntries nfc entries result = .error e ∧
      canonicalEntries nfc others result' = .error e' := by
  induction each generalizing result result' with
  | nil => exact .inl ⟨result, result', by rw [canonicalEntries]; rfl, by rw [canonicalEntries]; rfl, built⟩
  | @cons entry other entries others first _ ih =>
    obtain ⟨key, item⟩ := entry
    obtain ⟨_, item'⟩ := other
    obtain ⟨rfl, first⟩ := first
    dsimp only at first
    simp only [canonicalEntries, map_fst_of_inOrder built]
    split
    · exact .inr ⟨_, _, rfl, rfl⟩
    · rcases first with ⟨v, w, left, right, same⟩ | ⟨e, e', left, right⟩
      · rw [left, right]
        apply ih
        rw [List.map_append, List.map_append, built]
        simp [inOrder, same]
      · rw [left, right]
        exact .inr ⟨e, e', rfl, rfl⟩

theorem find?_key {α : Type} {entries : List (String × α)} (keys : (entries.map Prod.fst).Nodup)
    {entry : String × α} (member : entry ∈ entries) :
    entries.find? (fun other => other.1 = entry.1) = some entry := by
  cases found : entries.find? fun other => decide (other.1 = entry.1) with
  | none => simpa using List.find?_eq_none.mp found entry member
  | some other =>
    have same : other.1 = entry.1 := by simpa using List.find?_some found
    rw [List.inj_on_of_nodup_map keys (List.mem_of_find?_eq_some found) member same]

/-- Records with the same keys, field by field. -/
theorem Faithful.record {entries others : List (String × Value F)}
    (keys : (entries.map Prod.fst).Nodup)
    (each : List.Forall₂ (fun entry other => entry.1 = other.1 ∧
      Faithful value dumpDatetime nfc entry.2 other.2) entries others) :
    Faithful value dumpDatetime nfc (.mapping entries) (.mapping others) := by
  intro equal
  simp only [dumpJson, dumpEntries_eq, pyEq, Bool.and_eq_true, pyEqEntries_iff,
    List.forall_mem_map] at equal
  have names : entries.map Prod.fst = others.map Prod.fst := by
    rw [← List.forall₂_eq_eq_eq, List.forall₂_map_left_iff, List.forall₂_map_right_iff]
    exact each.imp fun _ _ related => related.1
  have fields : List.Forall₂ (fun entry other => entry.1 = other.1 ∧
      Agree (toCanonicalValue nfc entry.2) (toCanonicalValue nfc other.2)) entries others := by
    obtain ⟨length, paired⟩ := List.forall₂_iff_zip.mp each
    refine List.forall₂_iff_zip.mpr ⟨length, fun {entry other} member => ?_⟩
    obtain ⟨here, there⟩ := List.of_mem_zip member
    obtain ⟨key, faithful⟩ := paired member
    refine ⟨key, faithful ?_⟩
    obtain ⟨found, lookup, same⟩ := equal.2 entry here
    have present : (other.1, dumpJson dumpDatetime other.2) ∈
        others.map fun other => (other.1, dumpJson dumpDatetime other.2) :=
      List.mem_map_of_mem there
    have direct := find?_key (by simpa [List.map_map, Function.comp_def] using names ▸ keys) present
    rw [key, direct] at lookup
    cases lookup
    exact same
  unfold Agree
  simp only [toCanonicalValue]
  rcases agree_entries nfc fields [] [] rfl with ⟨out, out', left, right, same⟩ | ⟨e, e', left, right⟩
  · rw [left, right]
    refine .inl ⟨_, _, rfl, rfl, ?_⟩
    rw [Json.sortKeys_obj, Json.sortKeys_obj]
    exact congrArg (fun entries => Json.obj (sortedBy Prod.fst entries)) same
  · rw [left, right]
    exact .inr ⟨e, e', rfl, rfl⟩

end Faithful
end Collector.Contracts
