import Collector.Contracts.CanonicalForm
import Collector.Fetch.Urls

/-!
`identity_hash_v1`: the identity of an item whose source has no stable id, from its URL and its
stable attributes. Keys collide twice, once under their own normalisation and once more under the
NFC of the encoder, and neither may depend on the order in which a mapping gives its entries. NFC,
`casefold` and SHA-256 are parameters.
-/

namespace Collector.Contracts
open Collector.Lib
open Collector.Persistence (Bytes isSpace)
open Collector.Fetch (strip)

structure HashTools where
  nfc : String → String
  casefold : String → String
  sha256Hex : Bytes → String

/-- The `ValueError` of a key that comes twice, and what the encoder raises. -/
inductive IdentityHashError where
  | duplicated (key : String)
  | canonical (e : CanonicalEncodingError)
  deriving DecidableEq, Repr

/-- `text.split()`. -/
def splitWords (text : String) : List String :=
  ((text.toList.splitOnP isSpace).filter fun word => !word.isEmpty).map String.ofList

section Hash
variable {F : Type} (floats : FloatText F) (tools : HashTools)

/-- `_normalize_attribute_text`. -/
def normalizeAttributeText (value : String) : String :=
  tools.casefold (" ".intercalate (splitWords (tools.nfc value)))

/-- The loop over the attributes, a value given as its `str`; `attributes` is what it has so far. -/
def normalizeAttributes : List (String × Option String) → List (String × String) →
    Except IdentityHashError (List (String × String))
  | [], attributes => return attributes
  | (_, none) :: entries, attributes => normalizeAttributes entries attributes
  | (key, some rawValue) :: entries, attributes => do
    let text := normalizeAttributeText tools rawValue
    if text = "" then
      normalizeAttributes entries attributes
    else
      let normalizedKey := normalizeAttributeText tools key
      if normalizedKey ∈ attributes.map Prod.fst then
        throw (.duplicated normalizedKey)
      normalizeAttributes entries (attributes ++ [(normalizedKey, text)])

/-- The mapping that is hashed. -/
def identityPayload (url : String) (attributes : List (String × String)) : Json F :=
  .obj [("v", .int 1), ("url", .str url),
    ("attributes", .obj (attributes.map fun (key, text) => (key, .str text)))]

def identityHashV1 (canonicalUrl : String) (stableAttributes : List (String × Option String)) :
    Except IdentityHashError String := do
  let attributes ← normalizeAttributes tools stableAttributes []
  let payload : Json F := identityPayload (strip (tools.nfc canonicalUrl)) attributes
  let bytes ← (canonicalJsonBytes floats tools.nfc (ofJson payload)).mapError .canonical
  return "v1:" ++ tools.sha256Hex bytes

end Hash

section Attributes
variable (tools : HashTools)

/-- The normalised entry, if it is not dropped. -/
def keptAttribute (entry : String × Option String) : Option (String × String) :=
  (entry.2.map (normalizeAttributeText tools)).bind fun text =>
    if text = "" then none else some (normalizeAttributeText tools entry.1, text)

/-- The normalised entries, in their order. -/
def keptAttributes (entries : List (String × Option String)) : List (String × String) :=
  entries.filterMap (keptAttribute tools)

variable {tools}

/-- The loop ends with the normalised entries exactly if no two of them have one key. -/
theorem normalizeAttributes_eq_ok {entries : List (String × Option String)}
    {attributes out : List (String × String)} (started : (attributes.map Prod.fst).Nodup) :
    normalizeAttributes tools entries attributes = .ok out ↔
      out = attributes ++ keptAttributes tools entries ∧ (out.map Prod.fst).Nodup := by
  induction entries generalizing attributes with
  | nil =>
    simp only [normalizeAttributes, keptAttributes, List.filterMap_nil, List.append_nil, pure,
      Except.pure, Except.ok.injEq]
    constructor
    · rintro rfl
      exact ⟨rfl, started⟩
    · exact fun same => same.1.symm
  | cons entry entries ih =>
    obtain ⟨key, raw⟩ := entry
    cases raw with
    | none => exact ih started
    | some rawValue =>
      simp only [normalizeAttributes, keptAttributes, List.filterMap_cons, keptAttribute,
        Option.map_some, Option.bind_some]
      by_cases blank : normalizeAttributeText tools rawValue = ""
      · rw [if_pos blank, if_pos blank]
        exact ih started
      rw [if_neg blank, if_neg blank]
      by_cases known : normalizeAttributeText tools key ∈ attributes.map Prod.fst
      · rw [if_pos known]
        constructor
        · intro raised
          cases raised
        · rintro ⟨rfl, distinct⟩
          rw [List.map_append, List.nodup_append] at distinct
          exact absurd rfl (distinct.2.2 _ known (normalizeAttributeText tools key) (by simp))
      · have grown : ((attributes ++ [(normalizeAttributeText tools key,
            normalizeAttributeText tools rawValue)]).map Prod.fst).Nodup := by
          rw [List.map_append, List.nodup_append]
          refine ⟨started, by simp, ?_⟩
          intro first member second only same
          rw [List.map_singleton, List.mem_singleton] at only
          rw [same, only] at member
          exact known member
        rw [if_neg known]
        refine (ih grown).trans ?_
        rw [List.append_assoc]
        rfl

end Attributes

section Payload
variable {F : Type} {nfc : String → String} {url url' : String}
  {attributes others : List (String × String)}

/-- The entries that two payloads have in common up to NFC. -/
def nfcEntry (nfc : String → String) (entry : String × String) : String × String :=
  (nfc entry.1, nfc entry.2)

/-- The entries of the mapping of attributes. -/
def attributeEntries (attributes : List (String × String)) : List (String × Json F) :=
  attributes.map fun (key, text) => (key, .str text)

theorem alike_str_iff {text other : String} :
    Json.Alike nfc (.str text : Json F) (.str other) ↔ nfc text = nfc other := by
  constructor
  · intro alike
    cases alike with
    | str same => exact same
  · exact .str

/-- An encoded entry stands for a normalised one. -/
def Stands (nfc : String → String) (entry : String × String) (tree : String × Json F) : Prop :=
  ∃ text, tree.2 = .str text ∧ entry = (nfc tree.1, nfc text)

theorem stands_attributes (nfc : String → String) (attributes : List (String × String)) :
    List.Forall₂ (Stands (F := F) nfc) (attributes.map (nfcEntry nfc)) (attributeEntries attributes) := by
  rw [attributeEntries, List.forall₂_map_left_iff, List.forall₂_map_right_iff]
  exact List.forall₂_same.mpr fun entry _ => ⟨entry.2, rfl, rfl⟩

theorem Stands.of_alike {entry : String × String} {tree other : String × Json F}
    (stands : Stands nfc entry tree) (key : nfc tree.1 = nfc other.1)
    (alike : Json.Alike nfc tree.2 other.2) : Stands nfc entry other := by
  obtain ⟨text, shape, rfl⟩ := stands
  rw [shape] at alike
  obtain ⟨_, value⟩ := other
  cases alike with
  | str same => exact ⟨_, rfl, Prod.ext key same⟩

theorem Stands.unique {entry entry' : String × String} {tree : String × Json F}
    (first : Stands nfc entry tree) (second : Stands nfc entry' tree) : entry = entry' := by
  obtain ⟨text, shape, rfl⟩ := first
  obtain ⟨text', shape', rfl⟩ := second
  rw [shape] at shape'
  cases shape'
  rfl

/-- Mappings of texts are alike if they have the same entries up to NFC. -/
theorem alike_attributes_iff :
    Json.Alike nfc (.obj (attributeEntries attributes) : Json F) (.obj (attributeEntries others)) ↔
      (attributes.map (nfcEntry nfc)).Perm (others.map (nfcEntry nfc)) := by
  rw [Json.alike_obj_iff]
  constructor
  · rintro ⟨arranged, perm, paired⟩
    obtain ⟨entries, stands, back⟩ := List.perm_comp_forall₂ perm.symm
      (stands_attributes (F := F) nfc attributes).flip
    have across : List.Forall₂ (Stands nfc) entries (attributeEntries others) :=
      forall₂_join stands.flip paired.flip fun entry _ other tree stands alike =>
        Stands.of_alike stands alike.1 alike.2
    have same : List.Forall₂ Eq entries (others.map (nfcEntry nfc)) :=
      forall₂_join across (stands_attributes nfc others) fun entry _ other tree first second =>
        Stands.unique first second
    rw [List.forall₂_eq_eq_eq] at same
    exact same ▸ back.symm
  · intro perm
    obtain ⟨arranged, stands, back⟩ := List.perm_comp_forall₂ perm.symm
      (stands_attributes (F := F) nfc attributes)
    refine ⟨arranged, back.symm, ?_⟩
    refine forall₂_join stands.flip (stands_attributes nfc others).flip ?_
    rintro tree _ other entry ⟨text, shape, rfl⟩ ⟨text', shape', same⟩
    obtain ⟨key, value⟩ := Prod.mk.inj same
    rw [shape, shape']
    exact ⟨key, alike_str_iff.mpr value⟩

/-- The keys of a payload are still three when the encoder has normalised them. -/
def KeysApart (nfc : String → String) : Prop := (["v", "url", "attributes"].map nfc).Nodup

def payloadEntries (url : String) (attributes : List (String × String)) : List (String × Json F) :=
  [("v", .int 1), ("url", .str url), ("attributes", .obj (attributeEntries attributes))]

theorem key_of_payload {key : String} {v : Json F}
    (member : (key, v) ∈ payloadEntries url attributes) : key ∈ ["v", "url", "attributes"] := by
  have named : key ∈ (payloadEntries (F := F) url attributes).map Prod.fst :=
    List.mem_map_of_mem member
  exact named

/-- An entry of a payload, found by its key up to NFC. -/
theorem entry_found {key : String} {v : Json F} (apart : KeysApart nfc)
    (alike : Json.Alike nfc (identityPayload url attributes : Json F) (identityPayload url' others))
    (there : (key, v) ∈ payloadEntries url' others) :
    ∃ u, (key, u) ∈ payloadEntries url attributes ∧ Json.Alike nfc u v := by
  obtain ⟨arranged, perm, paired⟩ := Json.alike_obj_iff.mp alike
  obtain ⟨⟨name, u⟩, member, same, values⟩ := forall₂_of_mem_right paired there
  have present := perm.symm.subset member
  obtain rfl : name = key :=
    List.inj_on_of_nodup_map apart (key_of_payload present) (key_of_payload there) same
  exact ⟨u, present, values⟩

theorem alike_payload_iff (apart : KeysApart nfc) :
    Json.Alike nfc (identityPayload url attributes : Json F) (identityPayload url' others) ↔
      nfc url = nfc url' ∧
        (attributes.map (nfcEntry nfc)).Perm (others.map (nfcEntry nfc)) := by
  constructor
  · intro alike
    have urlThere : ("url", Json.str url') ∈ payloadEntries (F := F) url' others := by
      simp [payloadEntries]
    have attributesThere : ("attributes", Json.obj (attributeEntries others)) ∈
        payloadEntries (F := F) url' others := by
      simp [payloadEntries]
    obtain ⟨u, present, urls⟩ := entry_found apart alike urlThere
    obtain ⟨w, present', values⟩ := entry_found apart alike attributesThere
    obtain rfl : u = .str url := by simpa [payloadEntries] using present
    obtain rfl : w = .obj (attributeEntries attributes) := by simpa [payloadEntries] using present'
    exact ⟨alike_str_iff.mp urls, alike_attributes_iff.mp values⟩
  · rintro ⟨same, perm⟩
    refine Json.alike_obj_iff.mpr ⟨_, .refl _, ?_⟩
    exact .cons ⟨rfl, .int 1⟩ (.cons ⟨rfl, .str same⟩
      (.cons ⟨rfl, alike_attributes_iff.mpr perm⟩ .nil))

/-- An object is encoded only if NFC keeps its keys apart. -/
theorem keys_nodup_of_encodes {entries : List (String × Json F)} {tree : Json F}
    (encodes : Encodes nfc (.obj entries) tree) : ((entries.map Prod.fst).map nfc).Nodup := by
  obtain ⟨trees, _, distinct, paired⟩ := encodes_obj_iff.mp encodes
  have names : List.Forall₂ Eq (trees.map Prod.fst) ((entries.map Prod.fst).map nfc) := by
    rw [List.map_map, List.forall₂_map_left_iff, List.forall₂_map_right_iff]
    exact paired.flip.imp fun tree entry encodes => encodes.1
  rw [List.forall₂_eq_eq_eq] at names
  exact names ▸ distinct

theorem apart_of_encoded {floats : FloatText F} {bytes : Bytes}
    (encoded : canonicalJsonBytes floats nfc (ofJson (identityPayload url attributes)) = .ok bytes) :
    KeysApart nfc ∧ ((attributes.map Prod.fst).map nfc).Nodup := by
  obtain ⟨_, ⟨unsorted, encodes, _⟩, _⟩ := canonicalJsonBytes_eq_ok.mp encoded
  refine ⟨keys_nodup_of_encodes encodes, ?_⟩
  obtain ⟨trees, _, _, paired⟩ := encodes_obj_iff.mp encodes
  obtain ⟨_, _, _, paired, _⟩ := List.forall₂_cons_left_iff.mp paired
  obtain ⟨_, _, _, paired, _⟩ := List.forall₂_cons_left_iff.mp paired
  obtain ⟨_, _, inner, _, _⟩ := List.forall₂_cons_left_iff.mp paired
  have keys := keys_nodup_of_encodes inner.2
  have names : (attributeEntries (F := F) attributes).map Prod.fst = attributes.map Prod.fst := by
    rw [attributeEntries, List.map_map]
    rfl
  rw [← names]
  exact keys

/-- With distinct keys, the same entries in another order are the same set. -/
theorem perm_iff_same_entries (first : ((attributes.map Prod.fst).map nfc).Nodup)
    (second : ((others.map Prod.fst).map nfc).Nodup) :
    (attributes.map (nfcEntry nfc)).Perm (others.map (nfcEntry nfc)) ↔
      ∀ entry, entry ∈ attributes.map (nfcEntry nfc) ↔ entry ∈ others.map (nfcEntry nfc) := by
  have distinct {list : List (String × String)} (keys : ((list.map Prod.fst).map nfc).Nodup) :
      (list.map (nfcEntry nfc)).Nodup := by
    refine List.Nodup.of_map Prod.fst ?_
    rw [List.map_map] at keys ⊢
    exact keys
  exact List.perm_ext_iff_of_nodup (distinct first) (distinct second)

end Payload

section Identity
variable {F : Type} {floats : FloatText F} {tools : HashTools}

theorem identityHashV1_eq_ok {url : String} {entries : List (String × Option String)} {hash : String} :
    identityHashV1 floats tools url entries = .ok hash ↔
      ((keptAttributes tools entries).map Prod.fst).Nodup ∧ ∃ bytes,
        canonicalJsonBytes floats tools.nfc (ofJson (identityPayload (strip (tools.nfc url))
          (keptAttributes tools entries))) = .ok bytes ∧ hash = "v1:" ++ tools.sha256Hex bytes := by
  have empty : (([] : List (String × String)).map Prod.fst).Nodup := List.nodup_nil
  simp only [identityHashV1, Except.bind_eq_ok, normalizeAttributes_eq_ok empty, List.nil_append,
    Except.mapError_eq_ok, pure, Except.pure, Except.ok.injEq]
  constructor
  · rintro ⟨_, ⟨rfl, distinct⟩, bytes, encoded, rfl⟩
    exact ⟨distinct, bytes, encoded, rfl⟩
  · rintro ⟨distinct, bytes, encoded, rfl⟩
    exact ⟨_, ⟨rfl, distinct⟩, bytes, encoded, rfl⟩

/-- Equal bytes, equal hashes: the prefix and SHA-256 tell payloads apart. -/
theorem hash_eq_iff (injective : Function.Injective tools.sha256Hex) {first second : Bytes} :
    "v1:" ++ tools.sha256Hex first = "v1:" ++ tools.sha256Hex second ↔ first = second := by
  rw [String.append_right_inj]
  exact injective.eq_iff

/-- Two hashes are equal exactly if URLs and attributes agree up to NFC. -/
theorem identityHashV1_eq_iff (injective : Function.Injective tools.sha256Hex) {url url' : String}
    {entries others : List (String × Option String)} {hash hash' : String}
    (first : identityHashV1 floats tools url entries = .ok hash)
    (second : identityHashV1 floats tools url' others = .ok hash') :
    hash = hash' ↔
      tools.nfc (strip (tools.nfc url)) = tools.nfc (strip (tools.nfc url')) ∧
        ∀ entry, entry ∈ (keptAttributes tools entries).map (nfcEntry tools.nfc) ↔
          entry ∈ (keptAttributes tools others).map (nfcEntry tools.nfc) := by
  obtain ⟨_, bytes, encoded, rfl⟩ := identityHashV1_eq_ok.mp first
  obtain ⟨_, bytes', encoded', rfl⟩ := identityHashV1_eq_ok.mp second
  obtain ⟨apart, keys⟩ := apart_of_encoded encoded
  obtain ⟨_, keys'⟩ := apart_of_encoded encoded'
  rw [hash_eq_iff injective, ← perm_iff_same_entries keys keys',
    ← alike_payload_iff (F := F) apart]
  constructor
  · rintro rfl
    exact alike_of_bytes encoded encoded'
  · intro alike
    have again := bytes_of_alike alike encoded
    rw [encoded'] at again
    exact (Except.ok.inj again).symm

/-- Another order of the attributes gives the same hash. -/
theorem identityHashV1_perm {url : String} {entries others : List (String × Option String)}
    (perm : entries.Perm others) {hash : String}
    (done : identityHashV1 floats tools url entries = .ok hash) :
    identityHashV1 floats tools url others = .ok hash := by
  obtain ⟨distinct, bytes, encoded, rfl⟩ := identityHashV1_eq_ok.mp done
  have kept : (keptAttributes tools entries).Perm (keptAttributes tools others) := perm.filterMap _
  obtain ⟨apart, _⟩ := apart_of_encoded encoded
  refine identityHashV1_eq_ok.mpr ⟨(kept.map Prod.fst).nodup_iff.mp distinct, bytes, ?_, rfl⟩
  exact bytes_of_alike ((alike_payload_iff apart).mpr ⟨rfl, kept.map _⟩) encoded

/-- **The identity hash is that of the normalised payload.** The order of the attributes decides
neither the hash nor whether there is one; two hashes are equal exactly if the URLs and the sets of
kept entries are equal up to NFC, and for the URLs, where NFC leaves a stripped NFC text as it is,
exactly if they are equal. -/
theorem identity_hash_v1_exact (floats : FloatText F)
    (injective : Function.Injective tools.sha256Hex) :
    (∀ url (entries others : List (String × Option String)), entries.Perm others →
      (∃ hash, identityHashV1 floats tools url entries = .ok hash ∧
        identityHashV1 floats tools url others = .ok hash) ∨
      ∃ e e', identityHashV1 floats tools url entries = .error e ∧
        identityHashV1 floats tools url others = .error e') ∧
    ∀ url url' (entries others : List (String × Option String)) hash hash',
      identityHashV1 floats tools url entries = .ok hash →
      identityHashV1 floats tools url' others = .ok hash' →
      (hash = hash' ↔
        tools.nfc (strip (tools.nfc url)) = tools.nfc (strip (tools.nfc url')) ∧
          ∀ entry, entry ∈ (keptAttributes tools entries).map (nfcEntry tools.nfc) ↔
            entry ∈ (keptAttributes tools others).map (nfcEntry tools.nfc)) ∧
      ((∀ text, tools.nfc (strip (tools.nfc text)) = strip (tools.nfc text)) →
        (hash = hash' ↔
          strip (tools.nfc url) = strip (tools.nfc url') ∧
            ∀ entry, entry ∈ (keptAttributes tools entries).map (nfcEntry tools.nfc) ↔
              entry ∈ (keptAttributes tools others).map (nfcEntry tools.nfc))) := by
  constructor
  · intro url entries others perm
    cases first : identityHashV1 floats tools url entries with
    | ok hash => exact .inl ⟨hash, rfl, identityHashV1_perm perm first⟩
    | error e =>
      cases second : identityHashV1 floats tools url others with
      | ok hash =>
        rw [identityHashV1_perm perm.symm second] at first
        cases first
      | error e' => exact .inr ⟨e, e', rfl, rfl⟩
  · intro url url' entries others hash hash' first second
    have equal := identityHashV1_eq_iff injective first second
    refine ⟨equal, fun closed => ?_⟩
    rwa [closed, closed] at equal

namespace Sample

/-- Bytes as the characters of their codes. -/
def latin (bytes : Bytes) : String := String.ofList (bytes.map fun byte => Char.ofNat byte.toNat)

theorem latin_injective : Function.Injective latin := by
  have apart : Function.Injective fun byte : UInt8 => Char.ofNat byte.toNat := by
    intro first second same
    have code : ∀ n : Fin 256, (Char.ofNat n).toNat = n := by decide +kernel
    have codes := congrArg Char.toNat same
    dsimp only at codes
    rw [code ⟨first.toNat, first.toNat_lt⟩, code ⟨second.toNat, second.toNat_lt⟩] at codes
    exact UInt8.toNat_inj.mp codes
  intro first second same
  exact List.map_injective_iff.mpr apart (String.ofList_injective same)

def hashTools : HashTools where
  nfc := id
  casefold text := String.ofList (text.toList.map Char.toLower)
  sha256Hex := latin

/-- One car, as two pages spell it. -/
def firstPage : List (String × Option String) :=
  [("Make", some "Škoda"), ("year", some "2019"), ("colour", none)]

def secondPage : List (String × Option String) :=
  [("Year ", some " 2019"), ("make", some "Škoda"), ("engine", some " ")]

end Sample

theorem exists_ok {ε α : Type} {x : Except ε α} (done : x.toOption.isSome = true) :
    ∃ a, x = .ok a := by
  cases x with
  | error e => cases done
  | ok a => exact ⟨a, rfl⟩

theorem identity_hash_v1_exact_pages : ∃ hash,
    identityHashV1 sampleFloats Sample.hashTools "https://a.ua/1" Sample.firstPage = .ok hash ∧
      identityHashV1 sampleFloats Sample.hashTools " https://a.ua/1" Sample.secondPage =
        .ok hash := by
  obtain ⟨hash, first⟩ : ∃ hash, identityHashV1 sampleFloats Sample.hashTools "https://a.ua/1"
      Sample.firstPage = .ok hash := exists_ok (by decide +kernel)
  obtain ⟨hash', second⟩ : ∃ hash, identityHashV1 sampleFloats Sample.hashTools " https://a.ua/1"
      Sample.secondPage = .ok hash := exists_ok (by decide +kernel)
  have kept : (keptAttributes Sample.hashTools Sample.firstPage).map (nfcEntry id) =
      [("make", "Škoda"), ("year", "2019")] := by decide +kernel
  have kept' : (keptAttributes Sample.hashTools Sample.secondPage).map (nfcEntry id) =
      [("year", "2019"), ("make", "Škoda")] := by decide +kernel
  have equal := ((identity_hash_v1_exact sampleFloats Sample.latin_injective).2 _ _ _ _ _ _ first
    second).1
  have same : hash = hash' := equal.mpr ⟨by decide +kernel, fun entry => by
    change entry ∈ List.map (nfcEntry id) _ ↔ entry ∈ List.map (nfcEntry id) _
    rw [kept, kept']
    simp [or_comm]⟩
  exact ⟨hash, first, same ▸ second⟩

end Identity

end Collector.Contracts
