import Collector.Translation.Brackets
import Collector.Translation.Masking

/-!
Markup in an accepted translation. The check compares the tags that the tag pattern finds, so a
`<` of the provider passes it exactly when the pattern does not see it: when another `<` or the
end comes before the `>`. What the provider leaves open swallows the markup or the text behind it.
-/

namespace Collector.Translation
open Collector.Lib

/-- A stretch of the restored HTML and the placeholder whose replacement it is, if it is one. -/
structure Stretch where
  placeholder : Option Placeholder
  text : Text
  deriving DecidableEq

def MaskedSegment.stretch (tables : Tables) (masked : MaskedSegment) : Regex.Piece → Stretch
  | .char c => ⟨none, [c]⟩
  | .found hit => ⟨masked.byId (placeholderId tables hit), masked.replace tables hit⟩

/-- The restored HTML with the origin of its parts. -/
def MaskedSegment.stretches (tables : Tables) (masked : MaskedSegment) (translated : Text) :
    List Stretch :=
  ((placeholderRe tables).scan none translated 0).map (masked.stretch tables)

theorem flatMap_stretches (tables : Tables) (masked : MaskedSegment) (translated : Text) :
    (masked.stretches tables translated).flatMap Stretch.text = masked.unmask tables translated := by
  rw [MaskedSegment.stretches, MaskedSegment.unmask, Regex.sub, List.flatMap_map]
  congr 1
  funext piece
  cases piece <;> rfl

/-- Every `<` of the restored HTML belongs to the replacement of a tag or protected placeholder of
the segment. -/
def OwnMarkup (tables : Tables) (masked : MaskedSegment) (translated : Text) : Prop :=
  ∀ stretch ∈ masked.stretches tables translated, '<' ∈ stretch.text →
    ∃ placeholder ∈ masked.placeholders,
      stretch.placeholder = some placeholder ∧ placeholder.kind.markup = true

/-- The provider's own text, between the placeholders. -/
def ownText (tables : Tables) (translated : Text) : List Text := (placeholderRe tables).gaps translated

/-- The text of the segment has no raw `<`, and its markup closes every `<`. -/
def Segment.Tidy (segment : Segment) : Prop :=
  ∀ token ∈ segment.tokens, if token.kind = .text then '<' ∉ token.raw else Closes token.raw

/-- The provider's text has no `<` of its own, or in a tidy segment none that it leaves open. -/
def LeavesNothingOpen (tables : Tables) (segment : Segment) (translated : Text) : Prop :=
  (∀ gap ∈ ownText tables translated, '<' ∉ gap) ∨
    segment.Tidy ∧ ∀ gap ∈ ownText tables translated, Closes gap

theorem perm_of_sameCounts {α : Type} [DecidableEq α] {a b : List α} (same : sameCounts a b = true) :
    a.Perm b := by
  rw [List.perm_iff_count]
  intro x
  rw [sameCounts, List.all_eq_true] at same
  by_cases member : x ∈ a ++ b
  · exact of_decide_eq_true (same x member)
  · rw [List.mem_append, not_or] at member
    rw [List.count_eq_zero_of_not_mem member.1, List.count_eq_zero_of_not_mem member.2]

/-- What an accepted translation guarantees. -/
structure Accepted (tables : Tables) (masked : MaskedSegment) (translated : Text) : Prop where
  present : ∀ placeholder ∈ masked.placeholders, placeholder.id ∈
    ((placeholderRe tables).hits translated).map (placeholderId tables)
  once : (((placeholderRe tables).hits translated).map (placeholderId tables)).Nodup
  known : ∀ hit ∈ (placeholderRe tables).hits translated,
    ∃ placeholder ∈ masked.placeholders, placeholder.id = placeholderId tables hit
  tagged : (tags (masked.unmask tables translated)).Perm (tags masked.sourceHtml)

theorem issueIf_eq_nil {condition : Bool} {issue : PreservationIssue} :
    issueIf condition issue = [] ↔ condition = false := by
  cases condition <;> simp [issueIf]

theorem accepted_of_ok {tables : Tables} {masked : MaskedSegment} {translated : Text}
    (ok : (validatePreservation tables masked translated).ok = true) :
    Accepted tables masked translated := by
  simp only [PreservationResult.ok, List.isEmpty_iff, validatePreservation, List.append_eq_nil_iff,
    issueIf_eq_nil] at ok
  obtain ⟨⟨⟨⟨⟨⟨⟨missing, duplicated⟩, unknown⟩, _⟩, mismatch⟩, _⟩, _⟩, _⟩ := ok
  constructor
  · intro placeholder member
    by_contra absent
    rw [List.any_eq_false] at missing
    exact missing _ (List.mem_map_of_mem member) (decide_eq_true absent)
  · rw [List.nodup_iff_count_le_one]
    intro id
    by_contra more
    rw [List.any_eq_false] at duplicated
    have member := List.count_pos_iff.mp (Nat.zero_lt_of_lt (not_le.mp more))
    exact duplicated id member (decide_eq_true (not_le.mp more))
  · intro hit member
    by_contra strange
    rw [List.any_eq_false] at unknown
    apply unknown _ (List.mem_map_of_mem member)
    rw [decide_eq_true_eq]
    intro expected
    obtain ⟨placeholder, known, same⟩ := List.mem_map.mp expected
    exact strange ⟨placeholder, known, same⟩
  · exact perm_of_sameCounts (by simpa using mismatch)

section Origin
variable {tables : Tables} {masked : MaskedSegment} {translated : Text} {markup : List Text}

/-- In an accepted translation the foreign `<` are those of the provider's own text. -/
theorem Accepted.ownMarkup_iff (accepted : Accepted tables masked translated)
    (spec : Added 0 markup masked.placeholders) :
    OwnMarkup tables masked translated ↔ ∀ gap ∈ ownText tables translated, '<' ∉ gap := by
  have outside : (∃ gap ∈ ownText tables translated, '<' ∈ gap) ↔
      Regex.Piece.char '<' ∈ (placeholderRe tables).scan none translated 0 := Regex.mem_gapsOf
  constructor
  · intro own gap member inside
    have loose := outside.mp ⟨gap, member, inside⟩
    obtain ⟨_, _, origin, _⟩ := own _ (List.mem_map_of_mem loose) List.mem_cons_self
    cases origin
  · intro plain stretch member inside
    obtain ⟨piece, scanned, rfl⟩ := List.mem_map.mp member
    cases piece with
    | char c =>
      cases List.mem_singleton.mp inside
      obtain ⟨gap, here, open'⟩ := outside.mpr scanned
      exact absurd open' (plain gap here)
    | found hit =>
      have hits : hit ∈ (placeholderRe tables).hits translated :=
        List.mem_filterMap.mpr ⟨_, scanned, rfl⟩
      obtain ⟨placeholder, known, same⟩ := accepted.known hit hits
      have found : masked.byId (placeholderId tables hit) = some placeholder :=
        same ▸ spec.byId known
      refine ⟨placeholder, known, found, ?_⟩
      by_contra foreign
      apply spec.plain placeholder known (Bool.eq_false_iff.mpr foreign)
      change '<' ∈ masked.replace tables hit at inside
      rwa [MaskedSegment.replace, found] at inside

end Origin

section Count

/-- A substitution closes every `<` when its gaps and its replacements do. -/
theorem closes_replaced {replace : Regex.Hit → Text} {pieces : List Regex.Piece}
    (gaps : ∀ gap ∈ Regex.gapsOf pieces, Closes gap)
    (hits : ∀ hit ∈ pieces.filterMap Regex.Piece.hit?, Closes (replace hit)) :
    Closes (pieces.flatMap (Regex.Piece.replaced replace)) := by
  induction pieces with
  | nil => trivial
  | cons piece pieces ih =>
    cases piece with
    | found hit =>
      rw [Regex.gapsOf, List.forall_mem_cons] at gaps
      rw [List.filterMap_cons, Regex.Piece.hit?, List.forall_mem_cons] at hits
      exact hits.1.append (ih gaps.2 hits.2)
    | char c =>
      obtain ⟨gap, others, shape⟩ := Regex.gapsOf_ne_nil pieces
      rw [Regex.gapsOf, shape, List.forall_mem_cons] at gaps
      refine ⟨fun here => ?_, ih (shape ▸ List.forall_mem_cons.mpr ⟨gaps.1.2, gaps.2⟩) hits⟩
      obtain ⟨tail, rest⟩ := Regex.gap_prefix replace shape
      change nextBracket (pieces.flatMap (Regex.Piece.replaced replace)) = some '>'
      rw [← rest]
      exact nextBracket_append (gaps.1.1 here)

/-- Items without the character do not count. -/
theorem count_flatMap_filter {α : Type} {f : α → Text} {p : α → Bool} {items : List α} {c : Char}
    (without : ∀ item ∈ items, p item = false → c ∉ f item) :
    (items.flatMap f).count c = ((items.filter p).flatMap f).count c := by
  induction items with
  | nil => rfl
  | cons item items ih =>
    rw [List.forall_mem_cons] at without
    rw [List.flatMap_cons, List.count_append, ih without.2]
    cases kept : p item with
    | true => simp [kept]
    | false => simp [kept, List.count_eq_zero_of_not_mem (without.1 kept)]

variable {tables : Tables} {segment : Segment} {masked : MaskedSegment} {translated : Text}

/-- The replacements in an accepted translation are those of the placeholders, in some order. -/
theorem Accepted.replacements (accepted : Accepted tables masked translated) {markup : List Text}
    (spec : Added 0 markup masked.placeholders) :
    (((placeholderRe tables).hits translated).flatMap (masked.replace tables)).Perm
      (masked.placeholders.flatMap Placeholder.replacement) := by
  let value (id : Nat) : Text := ((masked.byId id).map Placeholder.replacement).getD []
  have replaced : ((placeholderRe tables).hits translated).flatMap (masked.replace tables) =
      (((placeholderRe tables).hits translated).map (placeholderId tables)).flatMap value := by
    rw [List.flatMap_map]
    apply List.flatMap_congr
    intro hit member
    obtain ⟨placeholder, known, same⟩ := accepted.known hit member
    have found : masked.byId (placeholderId tables hit) = some placeholder := same ▸ spec.byId known
    simp [value, MaskedSegment.replace, found]
  have expected : masked.placeholders.flatMap Placeholder.replacement =
      (masked.placeholders.map Placeholder.id).flatMap value := by
    rw [List.flatMap_map]
    apply List.flatMap_congr
    intro placeholder known
    simp [value, spec.byId known]
  rw [replaced, expected]
  apply List.Perm.flatMap_right
  rw [List.perm_ext_iff_of_nodup accepted.once spec.nodup]
  intro id
  constructor
  · intro member
    obtain ⟨hit, scanned, rfl⟩ := List.mem_map.mp member
    obtain ⟨placeholder, known, same⟩ := accepted.known hit scanned
    exact same ▸ List.mem_map_of_mem known
  · intro member
    obtain ⟨placeholder, known, rfl⟩ := List.mem_map.mp member
    exact accepted.present placeholder known

theorem Segment.Tidy.closes (tidy : segment.Tidy) : Closes segment.html := by
  apply closes_flatMap
  intro token member
  have each := tidy token member
  split at each
  · exact closes_of_not_mem each
  · exact each

/-- The `<` of a tidy segment are those of its markup. -/
theorem Segment.Tidy.count (tidy : segment.Tidy) :
    segment.html.count '<' = (markupOf segment.tokens).flatten.count '<' := by
  have plain : ∀ token ∈ segment.tokens, decide (token.kind ≠ .text) = false → '<' ∉ token.raw := by
    intro token member isText
    have each := tidy token member
    rwa [if_pos (by simpa using isText)] at each
  rw [Segment.html, count_flatMap_filter plain, markupOf, List.flatMap_def]

/-- Nothing of the provider is closed in an accepted translation of a tidy segment. -/
theorem Accepted.plain_of_closes (accepted : Accepted tables masked translated)
    (spec : Added 0 (markupOf segment.tokens) masked.placeholders)
    (source : masked.sourceHtml = segment.html) (tidy : segment.Tidy)
    (closes : ∀ gap ∈ ownText tables translated, Closes gap) :
    ∀ gap ∈ ownText tables translated, '<' ∉ gap := by
  have replacementCloses : ∀ placeholder ∈ masked.placeholders, Closes placeholder.replacement := by
    intro placeholder known
    cases own : placeholder.kind.markup with
    | false => exact closes_of_not_mem (spec.plain placeholder known own)
    | true =>
      have raw : placeholder.replacement ∈ markupOf segment.tokens := by
        rw [← spec.raws]
        exact List.mem_map_of_mem (List.mem_filter.mpr ⟨known, own⟩)
      obtain ⟨token, member, same⟩ := List.mem_map.mp raw
      obtain ⟨here, isMarkup⟩ := List.mem_filter.mp member
      have each := tidy token here
      rw [if_neg (of_decide_eq_true isMarkup), same] at each
      exact each
  have restoredCloses : Closes (masked.unmask tables translated) := by
    apply closes_replaced closes
    intro hit member
    obtain ⟨placeholder, known, same⟩ := accepted.known hit member
    have found : masked.byId (placeholderId tables hit) = some placeholder := same ▸ spec.byId known
    rw [MaskedSegment.replace, found]
    exact replacementCloses placeholder known
  have markup : (masked.placeholders.flatMap Placeholder.replacement).count '<' =
      segment.html.count '<' := by
    rw [count_flatMap_filter spec.plain, tidy.count, ← spec.raws, List.flatMap_def]
  have counted := accepted.tagged.length_eq
  rw [length_tags, length_tags, closedCount_of_closes restoredCloses, source,
    closedCount_of_closes tidy.closes] at counted
  rw [MaskedSegment.unmask, Regex.sub, Regex.count_replaced] at counted
  have replaced := (accepted.replacements spec).count_eq '<'
  rw [Regex.hits] at replaced
  have nothing : (((placeholderRe tables).scan none translated 0).filterMap
      Regex.Piece.char?).count '<' = 0 := by omega
  intro gap member inside
  have loose : Regex.Piece.char '<' ∈ (placeholderRe tables).scan none translated 0 :=
    Regex.mem_gapsOf.mp ⟨gap, member, inside⟩
  exact List.count_eq_zero.mp nothing (List.mem_filterMap.mpr ⟨_, loose, rfl⟩)

end Count

namespace Sample

/-- The tables on ASCII texts. -/
def tables : Tables where
  decimal c := if isAsciiDigit c then some (c.toNat - '0'.toNat) else none
  alnum c := c.isAlphanum
  control c := decide (c.toNat < 0x20 ∨ c.toNat = 0x7f)
  format _ := false
  nfc text := text
  html5 name := ([("amp;", '&'), ("amp", '&'), ("lt;", '<'), ("lt", '<'), ("gt;", '>'), ("gt", '>'),
    ("quot;", '"'), ("quot", '"')].lookup (String.ofList name)).map fun c => [c]
  lower text := text.map Char.toLower
  sha256Hex _ := ""

/-- `<b>Hallo</b>`. -/
def bold : Segment where
  index := 0
  kind := .text
  block := "p".toList
  lang := none
  tokens := [⟨.tag, "<b>".toList, "b".toList, false⟩, ⟨.text, "Hallo".toList, [], false⟩,
    ⟨.tag, "</b>".toList, "b".toList, true⟩]

def masked : MaskedSegment := maskSegment tables bold []

/-- The whole segment in a comment. -/
def commented : Text := "<!--<x id=\"1\"/>Hallo<x id=\"2\"/>-->".toList

def plain : Text := "<x id=\"1\"/>Pryvit<x id=\"2\"/>".toList

end Sample

/-- Among accepted translations, all markup is the segment's own exactly in those whose text leaves
no `<` open. -/
theorem own_markup_iff (tables : Tables) (segment : Segment) (glossary : List GlossaryEntry)
    (translated : Text)
    (accepted : (validatePreservation tables (maskSegment tables segment glossary) translated).ok =
      true) :
    OwnMarkup tables (maskSegment tables segment glossary) translated ↔
      LeavesNothingOpen tables segment translated := by
  have guarantees := accepted_of_ok accepted
  have spec := maskSegment_added tables glossary segment
  rw [guarantees.ownMarkup_iff spec]
  constructor
  · exact .inl
  · rintro (plain | ⟨tidy, closes⟩)
    · exact plain
    · exact guarantees.plain_of_closes spec rfl tidy closes

theorem own_markup_plain : LeavesNothingOpen Sample.tables Sample.bold Sample.plain ↔
    OwnMarkup Sample.tables Sample.masked Sample.plain :=
  (own_markup_iff Sample.tables Sample.bold [] Sample.plain (by decide +kernel)).symm

/-- The provider comments the segment out, and the check has no objection. -/
theorem smuggled_comment : ¬ ∀ (tables : Tables) (segment : Segment) (glossary : List GlossaryEntry)
    (translated : Text),
    (validatePreservation tables (maskSegment tables segment glossary) translated).ok = true →
      OwnMarkup tables (maskSegment tables segment glossary) translated := by
  intro safe
  have checked : validatePreservation Sample.tables Sample.masked Sample.commented =
      ⟨[], "<!--<b>Hallo</b>-->".toList⟩ := by decide +kernel
  have own := safe Sample.tables Sample.bold [] Sample.commented (congrArg PreservationResult.ok checked)
  have first : (Sample.masked.stretches Sample.tables Sample.commented).head? =
      some ⟨none, ['<']⟩ := by decide +kernel
  obtain ⟨_, _, origin, _⟩ := own _ (List.mem_of_head? first) List.mem_cons_self
  cases origin

end Collector.Translation
