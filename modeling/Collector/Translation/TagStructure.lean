import Collector.Translation.Smuggling
import Collector.Translation.TagOrder

/-!
The tags of an accepted translation. Every tag and protected block has a placeholder of its own,
and the placeholders are found in some order, each once; so the translation puts the markup of the
segment into an order, and in that order the tags pair up as they did in the source.
-/

namespace Collector.Translation
open Collector.Lib

section Tokens
variable (tables : Tables) (glossary : List GlossaryEntry)

/-- The identifiers of some tokens, each the count of placeholders right after it. -/
structure Numbered (start stop : Nat) (ids : List Nat) (tokens : List Token) : Prop where
  length : ids.length = tokens.length
  rising : (ids.zip tokens).Pairwise fun a b => b.2.kind ≠ .text → a.1 < b.1
  within : ∀ item ∈ ids.zip tokens, start ≤ item.1 ∧ item.1 ≤ stop
  positive : ∀ item ∈ ids.zip tokens, item.2.kind ≠ .text → start < item.1

theorem maskTokens_numbered (tokens : List Token) (placeholders : List Placeholder) :
    placeholders.length ≤ (maskTokens tables glossary placeholders tokens).2.1.length ∧
      Numbered placeholders.length (maskTokens tables glossary placeholders tokens).2.1.length
        (maskTokens tables glossary placeholders tokens).2.2 tokens := by
  induction tokens generalizing placeholders with
  | nil => exact ⟨Nat.le_refl _, rfl, .nil, by simp [maskTokens], by simp [maskTokens]⟩
  | cons token tokens ih =>
    obtain ⟨grown, later⟩ := ih (maskToken tables glossary placeholders token).2
    obtain ⟨added, next, spec⟩ := maskToken_added tables glossary placeholders token
    have longer : placeholders.length ≤ (maskToken tables glossary placeholders token).2.length := by
      rw [next, List.length_append]
      omega
    have mark : token.kind ≠ .text →
        placeholders.length < (maskToken tables glossary placeholders token).2.length := by
      intro markup
      obtain ⟨kind, raw, name, closing⟩ := token
      cases kind with
      | text => exact absurd rfl markup
      | tag => simp [maskToken, addPlaceholder]
      | protectedBlock => simp [maskToken, addPlaceholder]
    rw [maskTokens]
    dsimp only
    refine ⟨longer.trans grown, ?_, ?_, ?_, ?_⟩
    · rw [List.length_cons, List.length_cons, later.length]
    · rw [List.zip_cons_cons, List.pairwise_cons]
      exact ⟨later.positive, later.rising⟩
    · rw [List.zip_cons_cons, List.forall_mem_cons]
      refine ⟨⟨longer, grown⟩, fun item member => ?_⟩
      have bounds := later.within item member
      exact ⟨longer.trans bounds.1, bounds.2⟩
    · rw [List.zip_cons_cons, List.forall_mem_cons]
      exact ⟨mark, fun item member markup => longer.trans_lt (later.positive item member markup)⟩

/-- The tags and protected blocks among the tokens, with their identifiers and indexes. -/
def markupItems (ids : List Nat) (tokens : List Token) : List ((Nat × Token) × Nat) :=
  (ids.zip tokens).zipIdx.filter fun item => decide (item.1.2.kind ≠ .text)

/-- The tokens that have placeholders, and their indexes, in the order of the identifiers found. -/
def inTranslation (ids : List Nat) (tokens : List Token) (found : List Nat) : List (Token × Nat) :=
  found.filterMap fun id =>
    ((markupItems ids tokens).find? fun item => decide (item.1.1 = id)).map fun item =>
      (item.1.2, item.2)

variable {start stop : Nat} {ids : List Nat} {tokens : List Token} {found : List Nat}

theorem mem_markupItems {id index : Nat} {token : Token} :
    ((id, token), index) ∈ markupItems ids tokens ↔
      (ids[index]? = some id ∧ tokens[index]? = some token) ∧ token.kind ≠ .text := by
  rw [markupItems, List.mem_filter, List.mem_zipIdx_iff_getElem?, List.getElem?_zip_eq_some,
    decide_eq_true_eq]

theorem Numbered.nodup (numbered : Numbered start stop ids tokens) :
    ((markupItems ids tokens).map fun item => item.1.1).Nodup := by
  have rising : ((ids.zip tokens).zipIdx).Pairwise fun a b => b.1.2.kind ≠ .text → a.1.1 < b.1.1 := by
    have whole := numbered.rising
    rw [← List.zipIdx_map_fst 0 (ids.zip tokens)] at whole
    exact whole.of_map Prod.fst fun _ _ below => below
  rw [List.Nodup, List.pairwise_map]
  refine (rising.sublist List.filter_sublist).imp_of_mem ?_
  intro a b _ member below
  exact (below (of_decide_eq_true (List.mem_filter.mp member).2)).ne

/-- The item of an identifier is found under it. -/
theorem Numbered.find (numbered : Numbered start stop ids tokens) {item : (Nat × Token) × Nat}
    (member : item ∈ markupItems ids tokens) :
    (markupItems ids tokens).find? (fun other => decide (other.1.1 = item.1.1)) = some item := by
  cases found : (markupItems ids tokens).find? (fun other => decide (other.1.1 = item.1.1)) with
  | none => exact absurd (decide_eq_true rfl) (List.find?_eq_none.mp found item member)
  | some other =>
    have same : other.1.1 = item.1.1 := of_decide_eq_true (List.find?_some found :)
    rw [List.inj_on_of_nodup_map numbered.nodup (List.mem_of_find?_eq_some found) member same]

theorem mem_inTranslation (numbered : Numbered start stop ids tokens)
    (present : ∀ id, start < id → id ≤ stop → id ∈ found) {token : Token} {index : Nat} :
    (token, index) ∈ inTranslation ids tokens found ↔
      tokens[index]? = some token ∧ token.kind ≠ .text := by
  rw [inTranslation, List.mem_filterMap]
  constructor
  · rintro ⟨id, _, here⟩
    obtain ⟨item, first, same⟩ := Option.map_eq_some_iff.mp here
    cases same
    have member := List.mem_of_find?_eq_some first
    exact ⟨(mem_markupItems.mp member).1.2, (mem_markupItems.mp member).2⟩
  · rintro ⟨here, markup⟩
    obtain ⟨inside, _⟩ := List.getElem?_eq_some_iff.mp here
    rw [← numbered.length] at inside
    have member : ((ids[index], token), index) ∈ markupItems ids tokens :=
      mem_markupItems.mpr ⟨⟨List.getElem?_eq_getElem inside, here⟩, markup⟩
    have zipped : (ids[index], token) ∈ ids.zip tokens := by
      refine List.mem_of_getElem? (i := index) ?_
      rw [List.getElem?_zip_eq_some]
      exact ⟨List.getElem?_eq_getElem inside, here⟩
    refine ⟨ids[index], present _ (numbered.positive _ zipped markup) (numbered.within _ zipped).2, ?_⟩
    rw [numbered.find member, Option.map_some]

/-- The tokens stand in the translation as their placeholders do. -/
theorem sublist_inTranslation :
    (((inTranslation ids tokens found).map Prod.snd).map fun index => ids.getD index 0).Sublist found := by
  induction found with
  | nil => exact List.nil_sublist _
  | cons id found ih =>
    rw [inTranslation] at ih ⊢
    rw [List.filterMap_cons]
    cases first : (markupItems ids tokens).find? fun item => decide (item.1.1 = id) with
    | none => exact ih.trans (List.sublist_cons_self _ _)
    | some item =>
      have own : ids.getD item.2 0 = id := by
        have member := List.mem_of_find?_eq_some first
        have same : item.1.1 = id := of_decide_eq_true (List.find?_some first :)
        rw [List.getD_eq_getElem?_getD, (mem_markupItems.mp member).1.1, Option.getD_some, same]
      rw [Option.map_some, List.map_cons, List.map_cons, own]
      exact ih.cons_cons id

end Tokens

section Accepted
variable (tables : Tables) (segment : Segment) (glossary : List GlossaryEntry)

/-- `token_ids` of the masked segment. -/
def tokenIds : List Nat := (maskTokens tables glossary [] segment.tokens).2.2

/-- The identifiers that a translation has, in its order. -/
def foundIds (translated : Text) : List Nat :=
  ((placeholderRe tables).hits translated).map (placeholderId tables)

/-- The tokens of the segment in their order in the translation. -/
def translatedTokens (translated : Text) : List (Token × Nat) :=
  inTranslation (tokenIds tables segment glossary) segment.tokens (foundIds tables translated)

/-- A translation has every placeholder once and no other, and its tags pair up as the segment's. -/
structure KeepsTags (translated : Text) : Prop where
  once : ∀ placeholder ∈ (maskSegment tables segment glossary).placeholders,
    (foundIds tables translated).count placeholder.id = 1
  known : ∀ id ∈ foundIds tables translated,
    ∃ placeholder ∈ (maskSegment tables segment glossary).placeholders, placeholder.id = id
  pairs : ((matchedTagPairs ((translatedTokens tables segment glossary translated).map Prod.fst)).map
    fun pair => (indexAt (translatedTokens tables segment glossary translated) pair.1,
      indexAt (translatedTokens tables segment glossary translated) pair.2)).Perm
        (matchedTagPairs segment.tokens)
  full : FullyPaired ((translatedTokens tables segment glossary translated).map Prod.fst)

theorem not_reordered_of_ok {tables : Tables} {masked : MaskedSegment} {translated : Text}
    (ok : (validatePreservation tables masked translated).ok = true) :
    tagsReordered masked.tagPairs (foundIds tables translated) = false := by
  simp only [PreservationResult.ok, List.isEmpty_iff, validatePreservation, List.append_eq_nil_iff,
    issueIf_eq_nil] at ok
  exact ok.1.1.1.1.2

variable {tables segment glossary} {translated : Text}

theorem Accepted.mem_foundIds (accepted : Accepted tables (maskSegment tables segment glossary) translated)
    (id : Nat) (positive : 0 < id)
    (bound : id ≤ (maskSegment tables segment glossary).placeholders.length) :
    id ∈ foundIds tables translated := by
  have numbered := (maskSegment_added tables glossary segment).numbered
  have listed : id ∈ (maskSegment tables segment glossary).placeholders.map Placeholder.id := by
    rw [numbered, List.mem_range'_1]
    omega
  obtain ⟨placeholder, member, rfl⟩ := List.mem_map.mp listed
  exact accepted.present placeholder member

/-- The markup of the segment, all of it, in the order of the translation, nested by its own pairs. -/
theorem Accepted.order (accepted : Accepted tables (maskSegment tables segment glossary) translated)
    (token : Token) (index : Nat) :
    (token, index) ∈ translatedTokens tables segment glossary translated ↔
      segment.tokens[index]? = some token ∧ token.kind ≠ .text :=
  mem_inTranslation (maskTokens_numbered tables glossary segment.tokens []).2 accepted.mem_foundIds

theorem Accepted.labels (accepted : Accepted tables (maskSegment tables segment glossary) translated) :
    ((translatedTokens tables segment glossary translated).map Prod.snd).Nodup :=
  List.Nodup.of_map _ (sublist_inTranslation.nodup accepted.once)

theorem nested_translation (full : FullyPaired segment.tokens)
    (ok : (validatePreservation tables (maskSegment tables segment glossary) translated).ok = true) :
    Nesting.Nested (marked (translatedTokens tables segment glossary translated))
      (matchedTagPairs segment.tokens) := by
  have accepted := accepted_of_ok ok
  have clean := not_reordered_of_ok ok
  let ids := tokenIds tables segment glossary
  have tagged {pair : Nat × Nat} (member : pair ∈ matchedTagPairs segment.tokens) :
      (ids.getD pair.1 0, ids.getD pair.2 0) ∈ (maskSegment tables segment glossary).tagPairs :=
    List.mem_map.mpr ⟨pair, member, rfl⟩
  apply nested_of_order full accepted.order accepted.labels
  · intro pair member swapped
    apply not_swapped accepted.once clean (tagged member)
    exact (swapped.map fun index => ids.getD index 0).trans sublist_inTranslation
  · intro a one b other crossed
    apply not_crossed accepted.once clean (tagged one) (tagged other)
    exact (crossed.map fun index => ids.getD index 0).trans sublist_inTranslation

end Accepted

namespace Sample

/-- `<b>eins</b><br>und <i>zwei</i>`. -/
def twoWords : Segment where
  index := 0
  kind := .text
  block := "p".toList
  lang := none
  tokens := [⟨.tag, "<b>".toList, "b".toList, false⟩, ⟨.text, "eins".toList, [], false⟩,
    ⟨.tag, "</b>".toList, "b".toList, true⟩, ⟨.tag, "<br>".toList, "br".toList, false⟩,
    ⟨.text, "und ".toList, [], false⟩, ⟨.tag, "<i>".toList, "i".toList, false⟩,
    ⟨.text, "zwei".toList, [], false⟩, ⟨.tag, "</i>".toList, "i".toList, true⟩]

/-- The italic words come first. -/
def moved : Text :=
  "<x id=\"4\"/>dva<x id=\"5\"/> i<x id=\"3\"/><x id=\"1\"/>odyn<x id=\"2\"/>".toList

end Sample

/-- An accepted translation of a segment whose tags are all paired keeps their structure. -/
theorem accepted_keepsTags (tables : Tables) (segment : Segment) (glossary : List GlossaryEntry)
    (translated : Text) (full : FullyPaired segment.tokens)
    (ok : (validatePreservation tables (maskSegment tables segment glossary) translated).ok = true) :
    KeepsTags tables segment glossary translated := by
  have accepted := accepted_of_ok ok
  have pairs := (nested_translation full ok).perm_run
  rw [← relabeled_pairs] at pairs
  constructor
  · intro placeholder member
    exact List.count_eq_one_of_mem accepted.once (accepted.present placeholder member)
  · intro id member
    obtain ⟨hit, here, rfl⟩ := List.mem_map.mp member
    exact accepted.known hit here
  · exact pairs
  · rintro ⟨_, position⟩ member kind solid
    have listed := List.mem_zipIdx_iff_getElem?.mp member
    rw [List.getElem?_map, Option.map_eq_some_iff] at listed
    obtain ⟨⟨token, index⟩, here, rfl⟩ := listed
    have source := (accepted.order token index).mp (List.mem_of_getElem? here)
    obtain ⟨_, matched, own⟩ := full (token, index) (List.mem_zipIdx_iff_getElem?.mpr source.1) kind solid
    obtain ⟨pair, again, rfl⟩ := List.mem_map.mp (pairs.mem_iff.mpr matched)
    obtain ⟨inside, _⟩ := List.getElem?_eq_some_iff.mp here
    have bounds := within_of_pair again
    rw [List.length_map] at bounds
    rw [← indexAt_eq here] at own
    refine ⟨pair, again, own.imp ?_ ?_⟩
    · exact indexAt_inj accepted.labels bounds.1 inside
    · exact indexAt_inj accepted.labels bounds.2 inside

theorem accepted_keepsTags_moved : KeepsTags Sample.tables Sample.twoWords [] Sample.moved :=
  accepted_keepsTags Sample.tables Sample.twoWords [] Sample.moved (by decide +kernel) (by decide +kernel)

end Collector.Translation
