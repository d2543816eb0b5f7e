import Collector.Contracts.CanonicalForm
import Mathlib.Data.List.Perm.Subperm
import Mathlib.Data.Rat.Defs

/-!
Python's `==` on dumped values, beside the bytes that are written for them. `==` compares numbers
by their value whatever their type, so `1`, `1.0` and `True` are equal and are written differently;
where no such pair stands at one place, equal JSON values are written as the same bytes.
-/

namespace Collector.Contracts
open Collector.Lib
open Collector.Persistence (Bytes utf8)

variable {F : Type}

section Equality
variable (value : F → ℚ)

/-- What `==` compares numbers by; a `bool` is an `int`. -/
def numeric : Json F → Option ℚ
  | .bool b => some (if b then 1 else 0)
  | .int i => some i
  | .float x => some (value x)
  | .null | .str _ | .arr _ | .obj _ => none

mutual

/-- `v == w`. -/
def pyEq : Json F → Json F → Bool
  | .null, w => match w with
    | .null => true
    | _ => false
  | .str s, w => match w with
    | .str t => decide (s = t)
    | _ => false
  | .arr items, w => match w with
    | .arr others => pyEqItems items others
    | _ => false
  | .obj entries, w => match w with
    | .obj others => decide (entries.length = others.length) && pyEqEntries entries others
    | _ => false
  | .bool b, w => decide (numeric value w = numeric value (.bool b))
  | .int i, w => decide (numeric value w = numeric value (.int i))
  | .float x, w => decide (numeric value w = numeric value (.float x))

def pyEqItems : List (Json F) → List (Json F) → Bool
  | [], others => others.isEmpty
  | item :: items, others => match others with
    | [] => false
    | other :: others => pyEq item other && pyEqItems items others

/-- Every entry has an equal one under its key. -/
def pyEqEntries : List (String × Json F) → List (String × Json F) → Bool
  | [], _ => true
  | (key, item) :: entries, others =>
    (match others.find? fun other => other.1 = key with
      | some other => pyEq item other.2
      | none => false) && pyEqEntries entries others

end

/-- At some place the values hold the same number, written differently: as an integer and a float,
a number and a boolean, or zeros of different sign. -/
inductive Clash : Json F → Json F → Prop
  | number {v w : Json F} {p : ℚ} (left : numeric value v = some p) (right : numeric value w = some p)
      (different : v ≠ w) : Clash v w
  | item {items others : List (Json F)} {v w : Json F} (here : (v, w) ∈ items.zip others)
      (clash : Clash v w) : Clash (.arr items) (.arr others)
  | entry {entries others : List (String × Json F)} {key : String} {v w : Json F}
      (left : (key, v) ∈ entries) (right : (key, w) ∈ others) (clash : Clash v w) :
      Clash (.obj entries) (.obj others)

variable {value}

theorem pyEqItems_iff {items others : List (Json F)} :
    pyEqItems value items others = true ↔
      List.Forall₂ (fun v w => pyEq value v w = true) items others := by
  induction items generalizing others with
  | nil => simp [pyEqItems]
  | cons item items ih =>
    cases others with
    | nil => simp [pyEqItems]
    | cons other others => simp [pyEqItems, ih]

theorem pyEqEntries_iff {entries others : List (String × Json F)} :
    pyEqEntries value entries others = true ↔ ∀ entry ∈ entries,
      ∃ other, others.find? (fun other => other.1 = entry.1) = some other ∧
        pyEq value entry.2 other.2 = true := by
  induction entries with
  | nil => simp [pyEqEntries]
  | cons entry entries ih =>
    simp only [pyEqEntries, Bool.and_eq_true, ih, List.forall_mem_cons]
    refine and_congr_left fun _ => ?_
    cases others.find? fun other => decide (other.1 = entry.1) <;> simp

/-- Numbers that are equal and do not clash are one number. -/
private theorem eq_of_numeric {v w : Json F} {p : ℚ} (number : numeric value v = some p)
    (equal : numeric value w = numeric value v) (apart : ¬ Clash value v w) : v = w := by
  by_contra different
  exact apart (.number number (equal.trans number) different)

/-- Entries found under the keys of an object of the same size are that object's entries. -/
private theorem perm_of_found {entries others found : List (String × Json F)}
    (length : entries.length = others.length) (keys : (entries.map Prod.fst).Nodup)
    (same : found.map Prod.fst = entries.map Prod.fst) (inside : ∀ entry ∈ found, entry ∈ others) :
    others.Perm found := by
  have distinct : found.Nodup := List.Nodup.of_map Prod.fst (same ▸ keys)
  have size : found.length = entries.length := by simpa using congrArg List.length same
  exact ((distinct.subperm inside).perm_of_length_le (by omega)).symm

/-- **Equal values without a clash** differ in the order of entries only. -/
theorem reordered_of_pyEq {v w : Json F} (left : v.Distinct) (right : w.Distinct)
    (equal : pyEq value v w = true) (apart : ¬ Clash value v w) : v.Reordered w := by
  induction v using Json.induct generalizing w with
  | null =>
    cases w <;> simp only [pyEq, Bool.false_eq_true] at equal
    exact .null
  | bool b =>
    simp only [pyEq, decide_eq_true_eq] at equal
    obtain rfl := eq_of_numeric rfl equal apart
    exact .bool b
  | int i =>
    simp only [pyEq, decide_eq_true_eq] at equal
    obtain rfl := eq_of_numeric rfl equal apart
    exact .int i
  | float x =>
    simp only [pyEq, decide_eq_true_eq] at equal
    obtain rfl := eq_of_numeric rfl equal apart
    exact .float x
  | str s =>
    cases w <;> simp only [pyEq, Bool.false_eq_true, decide_eq_true_eq] at equal
    exact .str equal
  | arr items ih =>
    cases w <;> simp only [pyEq, Bool.false_eq_true] at equal
    rename_i others
    cases left with | arr left =>
    cases right with | arr right =>
    obtain ⟨length, each⟩ := List.forall₂_iff_zip.mp (pyEqItems_iff.mp equal)
    refine .arr length fun pair member => ?_
    obtain ⟨here, there⟩ := List.of_mem_zip member
    exact ih _ here (left _ here) (right _ there) (each member) fun clash => apart (.item member clash)
  | obj entries ih =>
    cases w <;> simp only [pyEq, Bool.false_eq_true, Bool.and_eq_true, decide_eq_true_eq] at equal
    rename_i others
    cases left with | obj keys left =>
    cases right with | obj keys' right =>
    have each : ∀ entry ∈ entries, ∃ other ∈ others, other.1 = entry.1 ∧
        Json.Reordered entry.2 other.2 := by
      intro entry member
      obtain ⟨other, found, same⟩ := pyEqEntries_iff.mp equal.2 entry member
      have present := List.mem_of_find?_eq_some found
      have key : other.1 = entry.1 := by simpa using List.find?_some found
      refine ⟨other, present, key, ih entry member (left _ member) (right _ present) same ?_⟩
      intro clash
      have there : (entry.1, other.2) ∈ others := key ▸ present
      exact apart (.entry member there clash)
    apply Json.Alike.symm
    rw [Json.alike_obj_iff]
    obtain ⟨found, paired⟩ := exists_forall₂ each
    have names : found.map Prod.fst = entries.map Prod.fst := by
      rw [← List.forall₂_eq_eq_eq, List.forall₂_map_left_iff, List.forall₂_map_right_iff]
      exact paired.imp fun _ _ related => related.2.1
    have inside : ∀ other ∈ found, other ∈ others := by
      intro other member
      obtain ⟨_, _, related⟩ := forall₂_of_mem_right paired.flip member
      exact related.1
    refine ⟨found, perm_of_found equal.1 keys names inside, ?_⟩
    exact paired.imp fun _ _ related => ⟨related.2.1, related.2.2.symm⟩

private theorem not_clash_of_alike {nfc : String → String} {v w tree tree' : Json F}
    (encodes : Encodes nfc v tree) (encodes' : Encodes nfc w tree') (alike : Json.Alike nfc v w) :
    ¬ Clash value v w := by
  intro clash
  induction clash generalizing tree tree' with
  | number left right different =>
    cases alike with
    | bool | int | float => exact different rfl
    | null | str | arr | obj => cases left
  | @item items others v w here _ ih =>
    obtain ⟨_, _, paired⟩ := encodes_arr_iff.mp encodes
    obtain ⟨_, _, paired'⟩ := encodes_arr_iff.mp encodes'
    obtain ⟨one, two⟩ := List.of_mem_zip here
    obtain ⟨_, _, first⟩ := forall₂_of_mem_right paired.flip one
    obtain ⟨_, _, second⟩ := forall₂_of_mem_right paired'.flip two
    exact ih first second (List.forall₂_zip (Json.alike_arr_iff.mp alike) here)
  | @entry entries others key v w left right _ ih =>
    obtain ⟨trees, _, _, paired⟩ := encodes_obj_iff.mp encodes
    obtain ⟨trees', _, distinct, paired'⟩ := encodes_obj_iff.mp encodes'
    obtain ⟨arranged, perm, aligned⟩ := Json.alike_obj_iff.mp alike
    obtain ⟨_, _, first⟩ := forall₂_of_mem_right paired.flip left
    obtain ⟨_, _, second⟩ := forall₂_of_mem_right paired'.flip right
    obtain ⟨⟨key', w'⟩, member, same, related⟩ :=
      forall₂_of_mem_right aligned.flip (perm.subset left)
    -- Normalised keys are distinct, so the entry under the key is the one it is aligned with.
    have names : (others.map fun entry => nfc entry.1).Nodup := by
      have written : trees'.map Prod.fst = others.map fun entry => nfc entry.1 := by
        rw [← List.forall₂_eq_eq_eq, List.forall₂_map_left_iff, List.forall₂_map_right_iff]
        exact paired'.flip.imp fun _ _ related => related.1
      exact written ▸ distinct
    have one := List.inj_on_of_nodup_map names member right same.symm
    cases one
    exact ih first.2 second.2 related

/-- **A clash is seen in the bytes.** -/
theorem not_clash_of_bytes {floats : FloatText F} {nfc : String → String} {v w : Json F}
    {bytes : Bytes} (first : canonicalJsonBytes floats nfc (ofJson v) = .ok bytes)
    (second : canonicalJsonBytes floats nfc (ofJson w) = .ok bytes) : ¬ Clash value v w := by
  obtain ⟨_, ⟨_, encodes, _⟩, _⟩ := canonicalJsonBytes_eq_ok.mp first
  obtain ⟨_, ⟨_, encodes', _⟩, _⟩ := canonicalJsonBytes_eq_ok.mp second
  exact not_clash_of_alike encodes encodes' (alike_of_bytes first second)

end Equality
end Collector.Contracts
