import Collector.Translation.Masking
import Collector.Translation.PlaceholderScan
import Collector.Translation.Smuggling

/-!
Unmasking undoes masking. Whatever finds the facts of a text, the claimed spans lie one behind the
other, so a masked segment is a list of parts: escaped text and numbered placeholders. Putting the
placeholders back restores the tokens, their text escaped anew.
-/

namespace Collector.Translation
open Collector.Lib

/-- What finds the facts of a text, in the order of precedence. -/
structure Finders where
  url : Text → List (Nat × Nat)
  email : Text → List (Nat × Nat)
  date : Text → List (Nat × Nat)
  number : Text → List (Nat × Nat)

section Masking
variable (tables : Tables) (finders : Finders)

/-- The finders of `_mask_text`. -/
def patternFinders : Finders where
  url := urlSpans
  email := (emailRe tables).spans
  date := (dateRe tables).spans
  number := (amountRe tables).spans

def Finders.candidates (plain : Text) : List Span :=
  let found (kind : PlaceholderKind) (spans : List (Nat × Nat)) : List Span :=
    spans.map fun (start, stop) => ⟨start, stop, kind, slice plain start stop⟩
  found .url (finders.url plain) ++ found .email (finders.email plain) ++
    found .date (finders.date plain) ++ found .number (finders.number plain)

/-- `_mask_text` without a glossary, with these finders. -/
def maskTextWith (plain : Text) (placeholders : List Placeholder) : Text × List Placeholder :=
  let spans := (finders.candidates plain).foldl claim []
  maskSpans plain 0 (spans.insertionSort fun a b => a.start ≤ b.start) placeholders

def maskTokenWith (placeholders : List Placeholder) (token : Token) : Text × List Placeholder :=
  match token.kind with
  | .text => maskTextWith finders (unescape tables token.raw) placeholders
  | .tag => addPlaceholder placeholders .tag token.raw token.raw
  | .protectedBlock => addPlaceholder placeholders .protectedBlock token.raw token.raw

def maskTokensWith : List Placeholder → List Token → Text × List Placeholder × List Nat
  | placeholders, [] => ([], placeholders, [])
  | placeholders, token :: tokens =>
    let (piece, placeholders) := maskTokenWith tables finders placeholders token
    let (rest, last, ids) := maskTokensWith placeholders tokens
    (piece ++ rest, last, placeholders.length :: ids)

/-- `mask_segment` without a glossary, with these finders. -/
def maskSegmentWith (segment : Segment) : MaskedSegment :=
  let (text, placeholders, ids) := maskTokensWith tables finders [] segment.tokens
  let pairs := (matchedTagPairs segment.tokens).map fun (opened, closed) =>
    (ids.getD opened 0, ids.getD closed 0)
  ⟨text, segment.html, placeholders, pairs⟩

theorem candidates_patternFinders (plain : Text) :
    (patternFinders tables).candidates plain = candidates tables plain [] := by
  simp [candidates, Finders.candidates, patternFinders]

theorem maskText_patternFinders (plain : Text) (placeholders : List Placeholder) :
    maskTextWith (patternFinders tables) plain placeholders =
      maskText tables plain [] placeholders := by
  rw [maskTextWith, candidates_patternFinders]
  rfl

theorem maskTokens_patternFinders (tokens : List Token) (placeholders : List Placeholder) :
    maskTokensWith tables (patternFinders tables) placeholders tokens =
      maskTokens tables [] placeholders tokens := by
  induction tokens generalizing placeholders with
  | nil => rfl
  | cons token tokens ih =>
    have same : maskTokenWith tables (patternFinders tables) placeholders token =
        maskToken tables [] placeholders token := by
      obtain ⟨kind, raw, name, closing⟩ := token
      cases kind with
      | text => exact maskText_patternFinders tables _ _
      | tag => rfl
      | protectedBlock => rfl
    rw [maskTokensWith, maskTokens, same]
    dsimp only
    rw [ih]

/-- The masking of the source is the one with its own patterns. -/
theorem maskSegment_patternFinders (segment : Segment) :
    maskSegmentWith tables (patternFinders tables) segment = maskSegment tables segment [] := by
  rw [maskSegmentWith, maskSegment, maskTokens_patternFinders]

end Masking

section Spans

/-- Spans one behind the other from a position on, each replaced by its own text. -/
def Follow (plain : Text) : Nat → List Span → Prop
  | _, [] => True
  | position, span :: spans =>
    position ≤ span.start ∧ span.start < span.stop ∧
      span.replacement = slice plain span.start span.stop ∧ Follow plain span.stop spans

/-- What is claimed is not empty, and no two claims overlap. -/
theorem claims_apart {plain : Text} {spans : List Span} (start : List Span)
    (own : ∀ span ∈ spans, span.replacement = slice plain span.start span.stop)
    (sound : ∀ span ∈ start, span.start < span.stop ∧ span.replacement = slice plain span.start span.stop)
    (apart : start.Pairwise fun a b => b.stop ≤ a.start ∨ a.stop ≤ b.start) :
    (∀ span ∈ spans.foldl claim start,
        span.start < span.stop ∧ span.replacement = slice plain span.start span.stop) ∧
      (spans.foldl claim start).Pairwise fun a b => b.stop ≤ a.start ∨ a.stop ≤ b.start := by
  induction spans generalizing start with
  | nil => exact ⟨sound, apart⟩
  | cons span spans ih =>
    rw [List.forall_mem_cons] at own
    rw [List.foldl_cons]
    by_cases free : span.start < span.stop ∧
        start.all fun other => decide (span.stop ≤ other.start ∨ other.stop ≤ span.start)
    · rw [claim, if_pos free]
      apply ih _ own.2
      · intro other member
        rcases List.mem_append.mp member with old | new
        · exact sound other old
        · rw [List.mem_singleton.mp new]
          exact ⟨free.1, own.1⟩
      · rw [List.pairwise_append]
        refine ⟨apart, List.pairwise_singleton .., ?_⟩
        intro other old last new
        rw [List.mem_singleton.mp new]
        exact of_decide_eq_true (List.all_eq_true.mp free.2 other old)
    · rw [claim, if_neg free]
      exact ih _ own.2 sound apart

theorem follow_of_pairwise {plain : Text} {position : Nat} {spans : List Span}
    (sound : ∀ span ∈ spans,
      span.start < span.stop ∧ span.replacement = slice plain span.start span.stop)
    (behind : spans.Pairwise fun a b => a.stop ≤ b.start)
    (first : ∀ span ∈ spans, position ≤ span.start) : Follow plain position spans := by
  induction spans generalizing position with
  | nil => trivial
  | cons span spans ih =>
    rw [List.forall_mem_cons] at sound first
    rw [List.pairwise_cons] at behind
    exact ⟨first.1, sound.1.1, sound.1.2, ih sound.2 behind.2 behind.1⟩

/-- The claimed spans in their order lie one behind the other. -/
theorem follow_claims (finders : Finders) (plain : Text) :
    Follow plain 0 (((finders.candidates plain).foldl claim []).insertionSort
      fun a b => a.start ≤ b.start) := by
  have own : ∀ span ∈ finders.candidates plain,
      span.replacement = slice plain span.start span.stop := by
    intro span member
    simp only [Finders.candidates, List.mem_append, List.mem_map] at member
    rcases member with ((⟨_, _, rfl⟩ | ⟨_, _, rfl⟩) | ⟨_, _, rfl⟩) | ⟨_, _, rfl⟩
    all_goals rfl
  obtain ⟨sound, apart⟩ := claims_apart [] own (by simp) .nil
  have total : Std.Total fun a b : Span => a.start ≤ b.start := ⟨fun a b => Nat.le_total a.start b.start⟩
  have transitive : IsTrans Span fun a b => a.start ≤ b.start := ⟨fun _ _ _ => Nat.le_trans⟩
  have perm := List.perm_insertionSort (fun a b : Span => a.start ≤ b.start)
    ((finders.candidates plain).foldl claim [])
  have sorted := List.pairwise_insertionSort (fun a b : Span => a.start ≤ b.start)
    ((finders.candidates plain).foldl claim [])
  have disjoint := perm.symm.pairwise apart fun either => either.symm
  apply follow_of_pairwise
  · exact fun span member => sound span (perm.mem_iff.mp member)
  · refine (sorted.and disjoint).imp_of_mem ?_
    intro a b _ there both
    have filled := (sound b (perm.mem_iff.mp there)).1
    omega
  · exact fun _ _ => Nat.zero_le _

end Spans

section Parts

/-- A masked text and the placeholders added for it, part by part, with what they restore. -/
structure Spells (start : Nat) (parts : List MaskPart) (masked : Text) (added : List Placeholder)
    (restored : Text) : Prop where
  spelled : parts.flatMap MaskPart.masked = masked
  marks : parts.filterMap MaskPart.placeholder? = added
  back : parts.flatMap MaskPart.restored = restored
  plain : ∀ part ∈ parts, part.Plain
  numbered : added.map Placeholder.id = List.range' (start + 1) added.length

theorem Spells.nil (start : Nat) : Spells start [] [] [] [] :=
  ⟨rfl, rfl, rfl, fun _ member => absurd member List.not_mem_nil, rfl⟩

theorem Spells.text (start : Nat) {chars : Text} (free : '<' ∉ chars) :
    Spells start [.text chars] chars [] chars := by
  refine ⟨List.append_nil _, rfl, List.append_nil _, ?_, rfl⟩
  intro part member
  rw [List.mem_singleton.mp member]
  exact free

theorem Spells.mark (start : Nat) (kind : PlaceholderKind) (source replacement : Text) :
    Spells start [.mark ⟨start + 1, kind, source, replacement⟩] (placeholderText (start + 1))
      [⟨start + 1, kind, source, replacement⟩] replacement := by
  refine ⟨List.append_nil _, rfl, List.append_nil _, ?_, rfl⟩
  intro part member
  rw [List.mem_singleton.mp member]
  trivial

theorem Spells.append {start : Nat} {parts parts' : List MaskPart} {masked masked' restored restored' : Text}
    {added added' : List Placeholder} (first : Spells start parts masked added restored)
    (second : Spells (start + added.length) parts' masked' added' restored') :
    Spells start (parts ++ parts') (masked ++ masked') (added ++ added') (restored ++ restored') := by
  constructor
  · rw [List.flatMap_append, first.spelled, second.spelled]
  · rw [List.filterMap_append, first.marks, second.marks]
  · rw [List.flatMap_append, first.back, second.back]
  · intro part member
    rcases List.mem_append.mp member with early | late
    · exact first.plain part early
    · exact second.plain part late
  · have shift : start + added.length + 1 = start + 1 + 1 * added.length := by omega
    rw [List.map_append, first.numbered, second.numbered, List.length_append, shift,
      List.range'_append]

theorem escape_append (quote : Bool) (first second : Text) :
    escape quote (first ++ second) = escape quote first ++ escape quote second :=
  List.flatMap_append

theorem slice_append_drop (text : Text) {start stop : Nat} (ordered : start ≤ stop) :
    slice text start stop ++ text.drop stop = text.drop start := by
  have rest : text.drop stop = (text.drop start).drop (stop - start) := by
    rw [List.drop_drop, Nat.add_sub_cancel' ordered]
  rw [slice, List.drop_take, rest, List.take_append_drop]

/-- A masked text restores to the escaped text. -/
theorem maskSpans_spells (plain : Text) {spans : List Span} {position : Nat}
    (follow : Follow plain position spans) (placeholders : List Placeholder) :
    ∃ parts added, Spells placeholders.length parts (maskSpans plain position spans placeholders).1 added
        (escape false (plain.drop position)) ∧
      (maskSpans plain position spans placeholders).2 = placeholders ++ added := by
  induction spans generalizing position placeholders with
  | nil =>
    exact ⟨_, [], .text _ (lt_not_mem_escape false _), (List.append_nil _).symm⟩
  | cons span spans ih =>
    obtain ⟨behind, filled, own, rest⟩ := follow
    let mark : Placeholder := ⟨placeholders.length + 1, span.kind,
      slice plain span.start span.stop, escape false span.replacement⟩
    obtain ⟨parts, added, spells, grown⟩ := ih rest (placeholders ++ [mark])
    have whole : escape false (plain.drop position) =
        escape false (slice plain position span.start) ++ (escape false span.replacement ++
          escape false (plain.drop span.stop)) := by
      rw [← escape_append, ← escape_append, own, slice_append_drop plain filled.le,
        slice_append_drop plain behind]
    have before := Spells.text placeholders.length
      (lt_not_mem_escape false (slice plain position span.start))
    have here := Spells.mark placeholders.length span.kind (slice plain span.start span.stop)
      (escape false span.replacement)
    rw [List.length_append] at spells
    have joined := before.append (here.append spells)
    refine ⟨.text (escape false (slice plain position span.start)) :: .mark mark :: parts,
      mark :: added, ?_, ?_⟩
    · rw [whole, maskSpans]
      dsimp only [addPlaceholder]
      rw [List.append_assoc]
      exact joined
    · exact grown.trans (List.append_assoc ..)

variable (tables : Tables) (finders : Finders)

/-- A token after masking and unmasking. -/
def Token.restored (token : Token) : Text :=
  if token.kind = .text then escape false (unescape tables token.raw) else token.raw

theorem maskToken_spells (placeholders : List Placeholder) (token : Token) :
    ∃ parts added, Spells placeholders.length parts (maskTokenWith tables finders placeholders token).1
        added (token.restored tables) ∧
      (maskTokenWith tables finders placeholders token).2 = placeholders ++ added := by
  obtain ⟨kind, raw, name, closing⟩ := token
  cases kind with
  | text => exact maskSpans_spells _ (follow_claims finders _) placeholders
  | tag => exact ⟨_, _, .mark placeholders.length .tag raw raw, rfl⟩
  | protectedBlock => exact ⟨_, _, .mark placeholders.length .protectedBlock raw raw, rfl⟩

theorem maskTokens_spells (tokens : List Token) (placeholders : List Placeholder) :
    ∃ parts added, Spells placeholders.length parts (maskTokensWith tables finders placeholders tokens).1
        added (tokens.flatMap (Token.restored tables)) ∧
      (maskTokensWith tables finders placeholders tokens).2.1 = placeholders ++ added := by
  induction tokens generalizing placeholders with
  | nil => exact ⟨[], [], .nil _, (List.append_nil _).symm⟩
  | cons token tokens ih =>
    obtain ⟨parts, added, here, next⟩ := maskToken_spells tables finders placeholders token
    obtain ⟨parts', added', later, last⟩ := ih (maskTokenWith tables finders placeholders token).2
    rw [next, List.length_append] at later
    refine ⟨parts ++ parts', added ++ added', ?_, ?_⟩
    · rw [maskTokensWith, List.flatMap_cons]
      dsimp only
      rw [next]
      exact here.append later
    · rw [maskTokensWith]
      exact last.trans (by rw [next, List.append_assoc])

end Parts

/-- What unmasking the masked text of some tokens gives. -/
structure Undone (tables : Tables) (tokens : List Token) (masked : MaskedSegment) : Prop where
  restored : masked.unmask tables masked.text = tokens.flatMap (Token.restored tables)
  numbered : masked.placeholders.map Placeholder.id = List.range' 1 masked.placeholders.length
  /-- The matches are the placeholders in their order, once each. -/
  found : ((placeholderRe tables).hits masked.text).map Regex.Hit.text =
    masked.placeholders.map fun placeholder => placeholderText placeholder.id
  ids : ((placeholderRe tables).hits masked.text).map (placeholderId tables) =
    List.range' 1 masked.placeholders.length
  /-- No other place of the text begins a match. -/
  only : masked.text.count '<' = masked.placeholders.length

theorem Spells.undone {tables : Tables} (ascii : tables.Ascii) {masked : MaskedSegment}
    {parts : List MaskPart} {tokens : List Token}
    (spells : Spells 0 parts masked.text masked.placeholders (tokens.flatMap (Token.restored tables))) :
    Undone tables tokens masked := by
  have hits : (placeholderRe tables).hits masked.text = masked.placeholders.map hitOf := by
    rw [← spells.spelled, hits_parts ascii spells.plain, spells.marks]
  have number (placeholder : Placeholder) : placeholderId tables (hitOf placeholder) = placeholder.id :=
    ascii.int_toDigits placeholder.id
  have distinct : (masked.placeholders.map Placeholder.id).Nodup := by
    rw [spells.numbered]
    exact List.nodup_range'
  constructor
  · rw [MaskedSegment.unmask, ← spells.back, ← spells.spelled]
    apply sub_parts ascii spells.plain
    intro placeholder member
    rw [spells.marks] at member
    rw [MaskedSegment.replace, number, byId_of_nodup distinct member]
    rfl
  · exact spells.numbered
  · rw [hits, List.map_map]
    rfl
  · rw [hits, List.map_map, ← spells.numbered]
    exact List.map_congr_left fun placeholder _ => number placeholder
  · rw [← spells.spelled, count_parts spells.plain, spells.marks]

namespace Sample

theorem ascii : tables.Ascii where
  digit c digit := by
    have within : isAsciiDigit c = true := by
      rw [Char.isDigit, Bool.and_eq_true, decide_eq_true_eq, decide_eq_true_eq] at digit
      exact decide_eq_true digit
    exact if_pos within
  quote := rfl

/-- A text that spells a placeholder. -/
def spelled : Segment where
  index := 0
  kind := .text
  block := "p".toList
  lang := none
  tokens := [⟨.tag, "<b>".toList, "b".toList, false⟩,
    ⟨.text, "&lt;x id=\"1\"/> &amp a@b.cd".toList, [], false⟩, ⟨.tag, "</b>".toList, "b".toList, true⟩]

end Sample

/-- Unmasking undoes masking, with the patterns of the source and with any others: the tokens come
back with their text escaped anew, and the masked text has the placeholders, numbered in their
order, and no other match. -/
theorem unmask_masked (tables : Tables) (ascii : tables.Ascii) (segment : Segment) :
    Undone tables segment.tokens (maskSegment tables segment []) ∧
      ∀ finders, Undone tables segment.tokens (maskSegmentWith tables finders segment) := by
  have undone : ∀ finders, Undone tables segment.tokens (maskSegmentWith tables finders segment) := by
    intro finders
    obtain ⟨parts, added, spells, last⟩ := maskTokens_spells tables finders segment.tokens []
    rw [List.nil_append] at last
    rw [← last] at spells
    change Spells 0 parts (maskSegmentWith tables finders segment).text
      (maskSegmentWith tables finders segment).placeholders _ at spells
    exact spells.undone ascii
  refine ⟨?_, undone⟩
  rw [← maskSegment_patternFinders]
  exact undone (patternFinders tables)

theorem unmask_masked_spelled :
    Undone Sample.tables Sample.spelled.tokens (maskSegment Sample.tables Sample.spelled []) :=
  (unmask_masked Sample.tables Sample.ascii Sample.spelled).1

example : (maskSegment Sample.tables Sample.spelled []).text =
    "<x id=\"1\"/>&lt;x id=\"<x id=\"2\"/>\"/&gt; &amp; <x id=\"3\"/><x id=\"4\"/>".toList := by
  decide +kernel

end Collector.Translation
