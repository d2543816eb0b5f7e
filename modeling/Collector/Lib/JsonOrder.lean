import Collector.Lib.JsonRoundTrip
import Collector.Lib.Sorting
import Mathlib.Data.List.Perm.Basic
import Mathlib.Data.String.Basic

/-!
The order of entries. `sortKeys` puts the entries of every object in the order of their keys;
`Alike` is equality of values up to the order of entries and up to a normalisation of strings.
-/

namespace Collector.Lib.Json
variable {F : Type}

mutual

/-- The entries of every object in the order of their keys. -/
def sortKeys : Json F → Json F
  | null => null
  | bool b => bool b
  | int i => int i
  | float x => float x
  | str s => str s
  | arr items => arr (sortKeysItems items)
  | obj entries => obj (sortedBy Prod.fst (sortKeysEntries entries))

def sortKeysItems : List (Json F) → List (Json F)
  | [] => []
  | item :: items => sortKeys item :: sortKeysItems items

def sortKeysEntries : List (String × Json F) → List (String × Json F)
  | [] => []
  | (key, item) :: entries => (key, sortKeys item) :: sortKeysEntries entries

end

attribute [grind =] sortKeys sortKeysItems sortKeysEntries

private theorem sortKeysItems_eq (items : List (Json F)) : sortKeysItems items = items.map sortKeys := by
  induction items with
  | nil => simp [sortKeysItems]
  | cons item items ih => simp [sortKeysItems, ih]

private theorem sortKeysEntries_eq (entries : List (String × Json F)) :
    sortKeysEntries entries = entries.map fun entry => (entry.1, sortKeys entry.2) := by
  induction entries with
  | nil => simp [sortKeysEntries]
  | cons entry entries ih => simp [sortKeysEntries, ih]

theorem sortKeys_arr (items : List (Json F)) : sortKeys (arr items) = arr (items.map sortKeys) := by
  rw [sortKeys, sortKeysItems_eq]

theorem sortKeys_obj (entries : List (String × Json F)) :
    sortKeys (obj entries) =
      obj (sortedBy Prod.fst (entries.map fun entry => (entry.1, sortKeys entry.2))) := by
  rw [sortKeys, sortKeysEntries_eq]

theorem Distinct.sortKeys {v : Json F} (distinct : v.Distinct) : v.sortKeys.Distinct := by
  induction distinct with
  | null | bool | int | float | str =>
    rw [Json.sortKeys]
    constructor
  | arr each ih =>
    rw [sortKeys_arr]
    refine .arr fun item member => ?_
    obtain ⟨old, present, rfl⟩ := List.mem_map.mp member
    exact ih old present
  | @obj entries keys each ih =>
    rw [sortKeys_obj]
    refine .obj ?_ fun entry member => ?_
    · have perm := (sortedBy_perm Prod.fst (entries.map fun entry => (entry.1, entry.2.sortKeys))).map
        Prod.fst
      rw [perm.nodup_iff, List.map_map]
      exact keys
    · obtain ⟨old, present, rfl⟩ := List.mem_map.mp ((mem_sortedBy _).mp member)
      exact ih old present

theorem sortKeys_sortKeys (v : Json F) : v.sortKeys.sortKeys = v.sortKeys := by
  induction v using induct with
  | null | bool | int | float | str => simp only [sortKeys]
  | arr items ih =>
    simp only [sortKeys_arr, List.map_map]
    exact congrArg arr (List.map_congr_left ih)
  | obj entries ih =>
    simp only [sortKeys_obj]
    congr 1
    have same : (sortedBy Prod.fst (entries.map fun entry => (entry.1, entry.2.sortKeys))).map
        (fun entry => (entry.1, entry.2.sortKeys)) =
        sortedBy Prod.fst (entries.map fun entry => (entry.1, entry.2.sortKeys)) := by
      refine (List.map_congr_left fun entry member => ?_).trans (List.map_id _)
      obtain ⟨old, present, rfl⟩ := List.mem_map.mp ((mem_sortedBy _).mp member)
      exact Prod.ext rfl (ih old present)
    rw [same]
    exact sortedBy_of_pairwise _ (sortedBy_pairwise _ _)

/-- A list of entries under different keys is known by its keys and its entries. -/
theorem eq_of_perm_of_keys {κ β : Type} {entries others : List (κ × β)} (perm : entries.Perm others)
    (keys : entries.map Prod.fst = others.map Prod.fst) (nodup : (entries.map Prod.fst).Nodup) :
    entries = others := by
  induction entries generalizing others with
  | nil => exact perm.nil_eq
  | cons entry entries ih =>
    cases others with
    | nil => exact perm.eq_nil
    | cons other others =>
      rw [List.map_cons, List.map_cons, List.cons.injEq] at keys
      rw [List.map_cons, List.nodup_cons] at nodup
      have same : entry = other := by
        rcases List.mem_cons.mp (perm.subset List.mem_cons_self) with same | later
        · exact same
        · exact absurd (keys.2 ▸ List.mem_map_of_mem later) nodup.1
      subst same
      rw [ih perm.cons_inv keys.2 nodup.2]

/-- Objects with the same different keys in one order sort alike when their values do. -/
theorem sortKeys_obj_inj {entries others : List (String × Json F)}
    (keys : entries.map Prod.fst = others.map Prod.fst) (nodup : (entries.map Prod.fst).Nodup) :
    sortKeys (obj entries) = sortKeys (obj others) ↔
      entries.map (fun entry => sortKeys entry.2) = others.map fun entry => sortKeys entry.2 := by
  have arranged : ∀ list : List (String × Json F),
      (list.map fun entry => (entry.1, sortKeys entry.2)) =
        (list.map Prod.fst).zip (list.map fun entry => sortKeys entry.2) := by
    intro list
    rw [List.zip_map']
  rw [sortKeys_obj, sortKeys_obj, obj.injEq]
  constructor
  · intro same
    have perm := (sortedBy_perm Prod.fst (entries.map fun entry => (entry.1, sortKeys entry.2))).symm
    rw [same] at perm
    have listed := eq_of_perm_of_keys (perm.trans (sortedBy_perm _ _))
      (by simpa only [List.map_map, Function.comp_def] using keys)
      (by simpa only [List.map_map, Function.comp_def] using nodup)
    simpa only [List.map_map, Function.comp_def] using congrArg (List.map Prod.snd) listed
  · intro same
    rw [arranged, arranged, keys, same]

/-- The same for keys and values that come apart. -/
theorem sortKeys_zip_inj {keys : List String} {values others : List (Json F)} (nodup : keys.Nodup)
    (enough : keys.length = values.length) (also : keys.length = others.length) :
    sortKeys (obj (keys.zip values)) = sortKeys (obj (keys.zip others)) ↔
      values.map sortKeys = others.map sortKeys := by
  have items : ∀ list : List (Json F), keys.length = list.length →
      (keys.zip list).map (fun entry => sortKeys entry.2) = list.map sortKeys := by
    intro list length
    rw [← List.map_snd_zip length.ge, List.map_map, List.map_snd_zip length.ge]
    rfl
  rw [sortKeys_obj_inj, items values enough, items others also]
  · rw [List.map_fst_zip enough.le, List.map_fst_zip also.le]
  · rw [List.map_fst_zip enough.le]
    exact nodup

/-- Equal up to the order of entries and up to `norm` on strings and keys. Integers, floats and
booleans are kept apart. -/
inductive Alike (norm : String → String) : Json F → Json F → Prop
  | null : Alike norm null null
  | bool (b : Bool) : Alike norm (bool b) (bool b)
  | int (i : Int) : Alike norm (int i) (int i)
  | float (x : F) : Alike norm (float x) (float x)
  | str {s t : String} (same : norm s = norm t) : Alike norm (str s) (str t)
  | arr {items others : List (Json F)} (length : items.length = others.length)
      (each : ∀ pair ∈ items.zip others, Alike norm pair.1 pair.2) :
      Alike norm (arr items) (arr others)
  | obj {entries arranged others : List (String × Json F)} (perm : entries.Perm arranged)
      (length : arranged.length = others.length)
      (keys : ∀ pair ∈ arranged.zip others, norm pair.1.1 = norm pair.2.1)
      (each : ∀ pair ∈ arranged.zip others, Alike norm pair.1.2 pair.2.2) :
      Alike norm (obj entries) (obj others)

/-- Equal up to the order of the entries of objects, at any depth. -/
def Reordered (v w : Json F) : Prop := Alike id v w

section Alike
variable {norm : String → String}

theorem Reordered.alike {v w : Json F} (reordered : Reordered v w) : Alike norm v w := by
  unfold Reordered at reordered
  induction reordered with
  | null => exact .null
  | bool b => exact .bool b
  | int i => exact .int i
  | float x => exact .float x
  | str same => exact .str (congrArg norm same)
  | arr length _ ih => exact .arr length ih
  | obj perm length keys _ ih =>
    exact .obj perm length (fun pair member => congrArg norm (keys pair member)) ih

theorem alike_arr_iff {items others : List (Json F)} :
    Alike norm (arr items) (arr others) ↔ List.Forall₂ (Alike norm) items others := by
  constructor
  · intro alike
    cases alike with
    | arr length each => exact List.forall₂_iff_zip.mpr ⟨length, fun member => each _ member⟩
  · intro paired
    obtain ⟨length, each⟩ := List.forall₂_iff_zip.mp paired
    exact .arr length fun pair member => each member

/-- Entries of alike objects, paired off. -/
theorem alike_obj_iff {entries others : List (String × Json F)} :
    Alike norm (obj entries) (obj others) ↔ ∃ arranged, entries.Perm arranged ∧
      List.Forall₂ (fun entry other => norm entry.1 = norm other.1 ∧ Alike norm entry.2 other.2)
        arranged others := by
  constructor
  · intro alike
    cases alike with
    | obj perm length keys each =>
      exact ⟨_, perm, List.forall₂_iff_zip.mpr
        ⟨length, fun member => ⟨keys _ member, each _ member⟩⟩⟩
  · rintro ⟨arranged, perm, paired⟩
    obtain ⟨length, each⟩ := List.forall₂_iff_zip.mp paired
    exact .obj perm length (fun pair member => (each member).1) fun pair member => (each member).2

theorem Alike.symm {v w : Json F} (alike : Alike norm v w) : Alike norm w v := by
  induction alike with
  | null => exact .null
  | bool b => exact .bool b
  | int i => exact .int i
  | float x => exact .float x
  | str same => exact .str same.symm
  | arr length _ ih =>
    rw [alike_arr_iff]
    apply List.Forall₂.flip
    exact List.forall₂_iff_zip.mpr ⟨length, fun member => ih _ member⟩
  | @obj entries arranged others perm length keys _ ih =>
    rw [alike_obj_iff]
    -- The pairs of the arrangement, carried back to the entries as they stood.
    have paired : List.Forall₂ (fun entry other => norm other.1 = norm entry.1 ∧
        Alike norm other.2 entry.2) arranged others :=
      List.forall₂_iff_zip.mpr ⟨length, fun member => ⟨(keys _ member).symm, ih _ member⟩⟩
    obtain ⟨moved, paired, back⟩ := List.perm_comp_forall₂ perm paired
    exact ⟨moved, back.symm, paired.flip⟩

end Alike
end Collector.Lib.Json
