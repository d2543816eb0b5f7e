import Collector.Contracts.Canonical
import Collector.Lib.Pairing

/-!
Canonical JSON is canonical. `Encodes` says what `to_canonical_value` makes of a strict JSON value;
that the bytes forget the order of entries, tell unlike values apart and survive a second encoding
is read off it and off the round trip of the text.
-/

namespace Collector.Contracts
open Collector.Lib
open Collector.Persistence (Bytes utf8)

/-- The JSON tree that a strict JSON value is encoded as: strings and keys normalised, and no two
keys of an object the same. -/
inductive Encodes {F : Type} (nfc : String → String) : Json F → Json F → Prop
  | null : Encodes nfc .null .null
  | bool (b : Bool) : Encodes nfc (.bool b) (.bool b)
  | int (i : Int) : Encodes nfc (.int i) (.int i)
  | float (x : F) : Encodes nfc (.float x) (.float x)
  | str (s : String) : Encodes nfc (.str s) (.str (nfc s))
  | arr {items trees : List (Json F)} (length : items.length = trees.length)
      (each : ∀ pair ∈ items.zip trees, Encodes nfc pair.1 pair.2) :
      Encodes nfc (.arr items) (.arr trees)
  | obj {entries trees : List (String × Json F)} (length : entries.length = trees.length)
      (distinct : (trees.map Prod.fst).Nodup)
      (keys : ∀ pair ∈ entries.zip trees, pair.2.1 = nfc pair.1.1)
      (each : ∀ pair ∈ entries.zip trees, Encodes nfc pair.1.2 pair.2.2) :
      Encodes nfc (.obj entries) (.obj trees)

section Encodes
variable {F : Type} {nfc : String → String}

/-- An entry and the entry it is encoded as. -/
def EncodesEntry (nfc : String → String) (entry tree : String × Json F) : Prop :=
  tree.1 = nfc entry.1 ∧ Encodes nfc entry.2 tree.2

theorem encodes_arr_iff {items : List (Json F)} {tree : Json F} :
    Encodes nfc (.arr items) tree ↔
      ∃ trees, tree = .arr trees ∧ List.Forall₂ (Encodes nfc) items trees := by
  constructor
  · intro encodes
    cases encodes with
    | arr length each =>
      exact ⟨_, rfl, List.forall₂_iff_zip.mpr ⟨length, fun member => each _ member⟩⟩
  · rintro ⟨trees, rfl, paired⟩
    obtain ⟨length, each⟩ := List.forall₂_iff_zip.mp paired
    exact .arr length fun pair member => each member

theorem encodes_obj_iff {entries : List (String × Json F)} {tree : Json F} :
    Encodes nfc (.obj entries) tree ↔
      ∃ trees, tree = .obj trees ∧ (trees.map Prod.fst).Nodup ∧
        List.Forall₂ (EncodesEntry nfc) entries trees := by
  constructor
  · intro encodes
    cases encodes with
    | obj length distinct keys each =>
      exact ⟨_, rfl, distinct, List.forall₂_iff_zip.mpr
        ⟨length, fun member => ⟨keys _ member, each _ member⟩⟩⟩
  · rintro ⟨trees, rfl, distinct, paired⟩
    obtain ⟨length, each⟩ := List.forall₂_iff_zip.mp paired
    exact .obj length distinct (fun pair member => (each member).1) fun pair member => (each member).2

private theorem canonicalItems_eq_ok {items : List (Json F)} {trees : List (Json F)} :
    canonicalItems nfc (ofJsonItems items) = .ok trees ↔
      List.Forall₂ (fun item tree => toCanonicalValue nfc (ofJson item) = .ok tree) items trees := by
  induction items generalizing trees with
  | nil => simp [ofJsonItems, canonicalItems, pure, Except.pure, eq_comm]
  | cons item items ih =>
    simp only [ofJsonItems, canonicalItems, Except.bind_eq_ok, pure, Except.pure, Except.ok.injEq,
      List.forall₂_cons_left_iff, ih]
    constructor
    · rintro ⟨tree, first, others, rest, rfl⟩
      exact ⟨tree, others, first, rest, rfl⟩
    · rintro ⟨tree, others, first, rest, rfl⟩
      exact ⟨tree, first, others, rest, rfl⟩

private theorem canonicalEntries_eq_ok {entries : List (String × Json F)}
    {result out : List (String × Json F)} (started : (result.map Prod.fst).Nodup) :
    canonicalEntries nfc (ofJsonEntries entries) result = .ok out ↔
      ∃ trees, out = result ++ trees ∧ (out.map Prod.fst).Nodup ∧
        List.Forall₂ (fun entry tree => tree.1 = nfc entry.1 ∧
          toCanonicalValue nfc (ofJson entry.2) = .ok tree.2) entries trees := by
  induction entries generalizing result with
  | nil =>
    simp only [ofJsonEntries, canonicalEntries, pure, Except.pure, Except.ok.injEq,
      List.forall₂_nil_left_iff]
    constructor
    · rintro rfl
      exact ⟨[], by simp, started, rfl⟩
    · rintro ⟨_, rfl, _, rfl⟩
      simp
  | cons entry entries ih =>
    obtain ⟨key, item⟩ := entry
    simp only [ofJsonEntries, canonicalEntries]
    by_cases known : nfc key ∈ result.map Prod.fst
    · simp only [if_pos known]
      constructor
      · intro raised
        cases raised
      · rintro ⟨trees, rfl, distinct, paired⟩
        obtain ⟨tree, others, ⟨same, _⟩, _, rfl⟩ := List.forall₂_cons_left_iff.mp paired
        rw [List.map_append, List.nodup_append] at distinct
        exact absurd same.symm (distinct.2.2 _ known tree.1 (by simp))
    · have grown (tree : Json F) : ((result ++ [(nfc key, tree)]).map Prod.fst).Nodup := by
        simp only [List.map_append, List.map_singleton, List.nodup_append]
        refine ⟨started, by simp, ?_⟩
        rintro a member b only rfl
        rw [List.mem_singleton] at only
        exact known (only ▸ member)
      simp only [if_neg known, Except.bind_eq_ok, ih (grown _), List.forall₂_cons_left_iff]
      constructor
      · rintro ⟨tree, encoded, trees, rfl, distinct, paired⟩
        exact ⟨(nfc key, tree) :: trees, by simp, distinct, _, trees, ⟨rfl, encoded⟩, paired, rfl⟩
      · rintro ⟨_, rfl, distinct, ⟨_, tree⟩, trees, ⟨rfl, encoded⟩, paired, rfl⟩
        exact ⟨tree, encoded, trees, by simp, distinct, paired⟩

/-- What `to_canonical_value` makes of a strict JSON value. -/
theorem toCanonicalValue_eq_ok {v tree : Json F} :
    toCanonicalValue nfc (ofJson v) = .ok tree ↔ Encodes nfc v tree := by
  induction v using Json.induct generalizing tree with
  | null | bool | int | float | str =>
    simp only [ofJson, toCanonicalValue, pure, Except.pure, Except.ok.injEq]
    constructor
    · rintro rfl
      constructor
    · intro encodes
      cases encodes
      rfl
  | arr items ih =>
    simp only [ofJson, toCanonicalValue, Except.bind_eq_ok, canonicalItems_eq_ok, pure, Except.pure,
      Except.ok.injEq, encodes_arr_iff]
    constructor
    · rintro ⟨trees, paired, rfl⟩
      exact ⟨trees, rfl, (forall₂_congr_mem fun item member tree => ih item member).mp paired⟩
    · rintro ⟨trees, rfl, paired⟩
      exact ⟨trees, (forall₂_congr_mem fun item member tree => ih item member).mpr paired, rfl⟩
  | obj entries ih =>
    have each : ∀ entry ∈ entries, ∀ tree : String × Json F,
        (tree.1 = nfc entry.1 ∧ toCanonicalValue nfc (ofJson entry.2) = .ok tree.2) ↔
          EncodesEntry nfc entry tree := by
      intro entry member tree
      rw [ih entry member]
      rfl
    have empty : (([] : List (String × Json F)).map Prod.fst).Nodup := by simp
    simp only [ofJson, toCanonicalValue, Except.bind_eq_ok, canonicalEntries_eq_ok empty,
      List.nil_append, pure, Except.pure, Except.ok.injEq, encodes_obj_iff]
    constructor
    · rintro ⟨_, ⟨trees, rfl, distinct, paired⟩, rfl⟩
      exact ⟨_, rfl, distinct, (forall₂_congr_mem each).mp paired⟩
    · rintro ⟨trees, rfl, distinct, paired⟩
      exact ⟨trees, ⟨trees, rfl, distinct, (forall₂_congr_mem each).mpr paired⟩, rfl⟩

theorem Encodes.distinct {v tree : Json F} (encodes : Encodes nfc v tree) : tree.Distinct := by
  induction encodes with
  | null => exact .null
  | bool b => exact .bool b
  | int i => exact .int i
  | float x => exact .float x
  | str s => exact .str _
  | arr length _ ih =>
    refine .arr fun tree member => ?_
    obtain ⟨_, _, distinct⟩ := forall₂_of_mem_right (R := fun _ tree => tree.Distinct)
      (List.forall₂_iff_zip.mpr ⟨length, fun member => ih _ member⟩) member
    exact distinct
  | obj length keys _ _ ih =>
    refine .obj keys fun tree member => ?_
    obtain ⟨_, _, distinct⟩ := forall₂_of_mem_right (R := fun _ tree => tree.2.Distinct)
      (List.forall₂_iff_zip.mpr ⟨length, fun member => ih _ member⟩) member
    exact distinct

/-- A value and the tree that is written for it, its keys in order. -/
def Arranges (nfc : String → String) (v tree : Json F) : Prop :=
  ∃ unsorted, Encodes nfc v unsorted ∧ tree = unsorted.sortKeys

def ArrangesEntry (nfc : String → String) (entry tree : String × Json F) : Prop :=
  tree.1 = nfc entry.1 ∧ Arranges nfc entry.2 tree.2

theorem Arranges.items {items : List (Json F)} {tree : Json F}
    (arranges : Arranges nfc (.arr items) tree) :
    ∃ trees, tree = .arr trees ∧ List.Forall₂ (Arranges nfc) items trees := by
  obtain ⟨unsorted, encodes, rfl⟩ := arranges
  obtain ⟨trees, rfl, paired⟩ := encodes_arr_iff.mp encodes
  refine ⟨_, Json.sortKeys_arr trees, List.forall₂_map_right_iff.mpr ?_⟩
  exact paired.imp fun _ tree encodes => ⟨tree, encodes, rfl⟩

theorem Arranges.entries {entries : List (String × Json F)} {tree : Json F}
    (arranges : Arranges nfc (.obj entries) tree) :
    ∃ written trees, tree = .obj trees ∧ written.Perm trees ∧
      List.Forall₂ (ArrangesEntry nfc) entries written := by
  obtain ⟨unsorted, encodes, rfl⟩ := arranges
  obtain ⟨trees, rfl, _, paired⟩ := encodes_obj_iff.mp encodes
  refine ⟨_, _, Json.sortKeys_obj trees, (sortedBy_perm _ _).symm, List.forall₂_map_right_iff.mpr ?_⟩
  exact paired.imp fun _ tree encodes => ⟨encodes.1, tree.2, encodes.2, rfl⟩

/-- Values that are written as one tree are alike. -/
theorem Arranges.alike {v w tree : Json F} (left : Arranges nfc v tree) (right : Arranges nfc w tree) :
    Json.Alike nfc v w := by
  induction v using Json.induct generalizing w tree with
  | null | bool | int | float | str =>
    obtain ⟨_, encodes, rfl⟩ := left
    obtain ⟨_, other, same⟩ := right
    cases encodes
    cases other <;> simp only [Json.sortKeys, reduceCtorEq, Json.bool.injEq, Json.int.injEq,
      Json.float.injEq, Json.str.injEq] at same
    all_goals first | (subst same; constructor) | exact .str same | exact .null
  | arr items ih =>
    obtain ⟨trees, rfl, paired⟩ := left.items
    obtain ⟨_, other, same⟩ := id right
    cases other <;> simp only [Json.sortKeys, reduceCtorEq] at same
    obtain ⟨_, ⟨⟩, paired'⟩ := right.items
    rw [Json.alike_arr_iff]
    exact forall₂_join paired paired' fun item member other tree => ih item member
  | obj entries ih =>
    obtain ⟨written, trees, rfl, perm, paired⟩ := left.entries
    obtain ⟨_, other, same⟩ := id right
    cases other <;> simp only [Json.sortKeys, reduceCtorEq] at same
    obtain ⟨written', _, ⟨⟩, perm', paired'⟩ := right.entries
    rw [Json.alike_obj_iff]
    -- Both sides write the same entries; the left ones are moved to where the right ones stand.
    obtain ⟨arranged, moved, back⟩ := List.perm_comp_forall₂ (perm'.trans perm.symm) paired.flip
    refine ⟨arranged, back.symm, forall₂_join moved.flip paired' ?_⟩
    rintro entry member other tree ⟨key, first⟩ ⟨key', second⟩
    exact ⟨key.symm.trans key', ih entry (back.subset member) first second⟩

/-- What is alike is written as one tree. -/
theorem Arranges.of_alike {v w tree : Json F} (alike : Json.Alike nfc v w)
    (arranges : Arranges nfc v tree) : Arranges nfc w tree := by
  induction alike generalizing tree with
  | null | bool | int | float => exact arranges
  | str same =>
    obtain ⟨_, encodes, rfl⟩ := arranges
    cases encodes
    refine ⟨_, .str _, ?_⟩
    rw [same]
  | @arr items others length _ ih =>
    obtain ⟨_, encodes, rfl⟩ := arranges
    obtain ⟨trees, rfl, paired⟩ := encodes_arr_iff.mp encodes
    have across : List.Forall₂ (fun v w => ∀ {tree}, Arranges nfc v tree → Arranges nfc w tree)
        items others := List.forall₂_iff_zip.mpr ⟨length, fun member => ih _ member⟩
    obtain ⟨found, paired', same⟩ := forall₂_transfer (T := Encodes nfc) (g := Json.sortKeys) across
      paired fun v w tree carry encodes => carry ⟨tree, encodes, rfl⟩
    refine ⟨.arr found, encodes_arr_iff.mpr ⟨found, rfl, paired'⟩, ?_⟩
    rw [Json.sortKeys_arr, Json.sortKeys_arr, same]
  | @obj entries arranged others perm length keys _ ih =>
    obtain ⟨_, encodes, rfl⟩ := arranges
    obtain ⟨trees, rfl, distinct, paired⟩ := encodes_obj_iff.mp encodes
    obtain ⟨moved, paired, back⟩ := List.perm_comp_forall₂ perm.symm paired
    have across : List.Forall₂ (fun entry other => nfc entry.1 = nfc other.1 ∧
        ∀ {tree}, Arranges nfc entry.2 tree → Arranges nfc other.2 tree) arranged others :=
      List.forall₂_iff_zip.mpr ⟨length, fun member => ⟨keys _ member, ih _ member⟩⟩
    let g : String × Json F → String × Json F := fun tree => (tree.1, tree.2.sortKeys)
    obtain ⟨found, paired', same⟩ := forall₂_transfer (T := EncodesEntry nfc) (g := g) across paired
      (by
        rintro entry other tree ⟨key, carry⟩ ⟨named, encodes⟩
        obtain ⟨unsorted, encodes', equal⟩ := carry ⟨tree.2, encodes, rfl⟩
        exact ⟨(tree.1, unsorted), ⟨named.trans key, encodes'⟩, Prod.ext rfl equal⟩)
    have names : found.map Prod.fst = moved.map Prod.fst := by
      have first := congrArg (List.map Prod.fst) same
      simpa [g, List.map_map, Function.comp_def, eq_comm] using first
    refine ⟨.obj found, encodes_obj_iff.mpr ⟨found, rfl, ?_, paired'⟩, ?_⟩
    · rw [names]
      exact (back.map Prod.fst).nodup_iff.mpr distinct
    · rw [Json.sortKeys_obj, Json.sortKeys_obj]
      congr 1
      refine (sortedBy_eq_of_perm _ (back.symm.map g) ?_).trans (congrArg _ same)
      intro a here b there equal
      have keys : ((trees.map g).map Prod.fst).Nodup := by
        simpa [g, List.map_map, Function.comp_def] using distinct
      exact List.inj_on_of_nodup_map keys here there equal

/-- A written tree is written as itself. -/
theorem Encodes.again (idempotent : ∀ s, nfc (nfc s) = nfc s) {v tree : Json F}
    (encodes : Encodes nfc v tree) : Encodes nfc tree.sortKeys tree.sortKeys := by
  induction encodes with
  | null | bool | int | float =>
    rw [Json.sortKeys]
    constructor
  | str s =>
    rw [Json.sortKeys]
    have fixed : Encodes nfc (.str (nfc s) : Json F) (.str (nfc (nfc s))) := .str (nfc s)
    rwa [idempotent] at fixed
  | @arr items trees length _ ih =>
    rw [Json.sortKeys_arr, encodes_arr_iff]
    refine ⟨_, rfl, List.forall₂_same.mpr fun tree member => ?_⟩
    obtain ⟨old, present, rfl⟩ := List.mem_map.mp member
    obtain ⟨_, _, fixed⟩ := forall₂_of_mem_right
      (List.forall₂_iff_zip.mpr ⟨length, fun member => ih _ member⟩) present
    exact fixed
  | @obj entries trees length distinct keys _ ih =>
    have names := ((sortedBy_perm Prod.fst (trees.map fun tree => (tree.1, tree.2.sortKeys))).map
      Prod.fst).nodup_iff
    rw [Json.sortKeys_obj, encodes_obj_iff]
    refine ⟨_, rfl, names.mpr ?_, List.forall₂_same.mpr fun tree member => ?_⟩
    · simpa [List.map_map, Function.comp_def] using distinct
    · obtain ⟨old, present, rfl⟩ := List.mem_map.mp ((mem_sortedBy _).mp member)
      obtain ⟨entry, _, key, fixed⟩ := forall₂_of_mem_right
        (List.forall₂_iff_zip.mpr ⟨length, fun member => And.intro (keys _ member) (ih _ member)⟩)
        present
      refine ⟨?_, fixed⟩
      dsimp only at key ⊢
      rw [key, idempotent]

end Encodes

section Bytes
variable {F : Type} {floats : FloatText F} {nfc : String → String}

theorem decode_utf8 (s : String) : String.fromUTF8? ⟨(utf8 s).toArray⟩ = some s := by
  have same : (⟨(utf8 s).toArray⟩ : ByteArray) = s.toByteArray := by
    simp [utf8]
  rw [same, String.fromUTF8?, dif_pos s.isValidUTF8]
  rfl

theorem utf8_injective {s t : String} (same : utf8 s = utf8 t) : s = t := by
  have decoded := decode_utf8 s
  rw [same, decode_utf8 t] at decoded
  exact (Option.some.inj decoded).symm

theorem canonicalJsonBytes_eq_ok {v : Json F} {bytes : Bytes} :
    canonicalJsonBytes floats nfc (ofJson v) = .ok bytes ↔
      ∃ tree, Arranges nfc v tree ∧ bytes = utf8 (.ofList (tree.text floats)) := by
  simp only [canonicalJsonBytes, Except.bind_eq_ok, toCanonicalValue_eq_ok, pure, Except.pure,
    Except.ok.injEq]
  constructor
  · rintro ⟨tree, encodes, rfl⟩
    exact ⟨_, ⟨tree, encodes, rfl⟩, rfl⟩
  · rintro ⟨_, ⟨tree, encodes, rfl⟩, rfl⟩
    exact ⟨tree, encodes, rfl⟩

theorem Arranges.distinct {v tree : Json F} (arranges : Arranges nfc v tree) : tree.Distinct := by
  obtain ⟨unsorted, encodes, rfl⟩ := arranges
  exact encodes.distinct.sortKeys

theorem Arranges.again (idempotent : ∀ s, nfc (nfc s) = nfc s) {v tree : Json F}
    (arranges : Arranges nfc v tree) : Arranges nfc tree tree := by
  obtain ⟨unsorted, encodes, rfl⟩ := arranges
  exact ⟨_, encodes.again idempotent, (Json.sortKeys_sortKeys unsorted).symm⟩

/-- Alike values have the same bytes. -/
theorem bytes_of_alike {v w : Json F} (alike : Json.Alike nfc v w) {bytes : Bytes}
    (encoded : canonicalJsonBytes floats nfc (ofJson v) = .ok bytes) :
    canonicalJsonBytes floats nfc (ofJson w) = .ok bytes := by
  obtain ⟨tree, arranges, rfl⟩ := canonicalJsonBytes_eq_ok.mp encoded
  exact canonicalJsonBytes_eq_ok.mpr ⟨tree, arranges.of_alike alike, rfl⟩

/-- Values with the same bytes are alike. -/
theorem alike_of_bytes {v w : Json F} {bytes : Bytes}
    (first : canonicalJsonBytes floats nfc (ofJson v) = .ok bytes)
    (second : canonicalJsonBytes floats nfc (ofJson w) = .ok bytes) : Json.Alike nfc v w := by
  obtain ⟨tree, arranges, rfl⟩ := canonicalJsonBytes_eq_ok.mp first
  obtain ⟨other, arranges', same⟩ := canonicalJsonBytes_eq_ok.mp second
  have texts := String.ofList_injective (utf8_injective same)
  obtain rfl := Json.text_injective floats arranges.distinct arranges'.distinct texts
  exact arranges.alike arranges'

/-- The bytes are read as a value that has these bytes. -/
theorem bytes_of_parsed (idempotent : ∀ s, nfc (nfc s) = nfc s) {v : Json F} {bytes : Bytes}
    (encoded : canonicalJsonBytes floats nfc (ofJson v) = .ok bytes) :
    ∃ u, parseJson floats bytes = some u ∧ canonicalJsonBytes floats nfc (ofJson u) = .ok bytes := by
  obtain ⟨tree, arranges, rfl⟩ := canonicalJsonBytes_eq_ok.mp encoded
  refine ⟨tree, ?_, canonicalJsonBytes_eq_ok.mpr ⟨tree, arranges.again idempotent, rfl⟩⟩
  rw [parseJson, decode_utf8, Option.bind_some, String.toList_ofList]
  exact Json.read_text floats arranges.distinct

/-- **Canonical JSON is canonical.** The bytes do not depend on the order of entries, values with
the same bytes are alike, and the parsed bytes are encoded as the same bytes. -/
theorem canonical_json_bytes_canonical (floats : FloatText F)
    (idempotent : ∀ s, nfc (nfc s) = nfc s) :
    (∀ v w : Json F, v.Reordered w →
      (∃ bytes, canonicalJsonBytes floats nfc (ofJson v) = .ok bytes ∧
        canonicalJsonBytes floats nfc (ofJson w) = .ok bytes) ∨
      ∃ e e', canonicalJsonBytes floats nfc (ofJson v) = .error e ∧
        canonicalJsonBytes floats nfc (ofJson w) = .error e') ∧
    (∀ (v w : Json F) bytes, canonicalJsonBytes floats nfc (ofJson v) = .ok bytes →
      canonicalJsonBytes floats nfc (ofJson w) = .ok bytes → Json.Alike nfc v w) ∧
    ∀ (v : Json F) bytes, canonicalJsonBytes floats nfc (ofJson v) = .ok bytes →
      ∃ u, parseJson floats bytes = some u ∧
        canonicalJsonBytes floats nfc (ofJson u) = .ok bytes := by
  refine ⟨?_, fun v w bytes first second => alike_of_bytes first second,
    fun v bytes encoded => bytes_of_parsed idempotent encoded⟩
  intro v w reordered
  have alike : Json.Alike nfc v w := reordered.alike
  cases first : canonicalJsonBytes floats nfc (ofJson v) with
  | ok bytes => exact .inl ⟨bytes, rfl, bytes_of_alike alike first⟩
  | error e =>
    cases second : canonicalJsonBytes floats nfc (ofJson w) with
    | ok bytes =>
      rw [bytes_of_alike alike.symm second] at first
      cases first
    | error e' => exact .inr ⟨e, e', rfl, rfl⟩

/-- A few floats, with both zeros. -/
inductive SampleFloat where
  | zero
  | negativeZero
  | half
  | one
  deriving DecidableEq, Repr

def SampleFloat.text : SampleFloat → List Char
  | .zero => ['0', '.', '0']
  | .negativeZero => ['-', '0', '.', '0']
  | .half => ['0', '.', '5']
  | .one => ['1', '.', '0']

def sampleFloats : FloatText SampleFloat where
  text := SampleFloat.text
  read chars := [.zero, .negativeZero, .half, .one].find? fun x => x.text = chars
  read_text x := by cases x <;> decide
  literal x := by cases x <;> exact ⟨_, _, rfl, by decide⟩

/-- NFC of texts that may be an `e` with a combining acute accent. -/
def composeAcute (s : String) : String := if s = "e\u0301" then "é" else s

theorem composeAcute_idempotent (s : String) : composeAcute (composeAcute s) = composeAcute s := by
  unfold composeAcute
  split
  · decide
  · rfl

def sampleReport : Json SampleFloat :=
  .obj [("e\u0301", .null), ("b", .arr [.int 1, .float .half, .bool true, .float .negativeZero])]

theorem canonical_json_bytes_canonical_report :
    ∃ bytes u, bytes = utf8 "\x7b\"b\":[1,0.5,true,-0.0],\"é\":null\x7d" ∧
      canonicalJsonBytes sampleFloats composeAcute (ofJson sampleReport) = .ok bytes ∧
      parseJson sampleFloats bytes = some u ∧
      canonicalJsonBytes sampleFloats composeAcute (ofJson u) = .ok bytes := by
  have encoded : canonicalJsonBytes sampleFloats composeAcute (ofJson sampleReport) =
      .ok (utf8 "\x7b\"b\":[1,0.5,true,-0.0],\"é\":null\x7d") := by
    decide +kernel
  obtain ⟨u, parsed, again⟩ :=
    (canonical_json_bytes_canonical sampleFloats composeAcute_idempotent).2.2 sampleReport _ encoded
  exact ⟨_, u, rfl, encoded, parsed, again⟩

end Bytes
end Collector.Contracts
