import Collector.Translation.Preservation

/-!
What masking leaves behind: placeholders numbered in their order, those of tags and protected
blocks with the raw tokens of the segment, the others with escaped text.
-/

namespace Collector.Translation
open Collector.Lib

/-- The kinds whose replacement is markup of the source. -/
def PlaceholderKind.markup : PlaceholderKind → Bool
  | .tag | .protectedBlock => true
  | _ => false

/-- Placeholders added after `start` others, with the markup among them in order. -/
structure Added (start : Nat) (markup : List Text) (added : List Placeholder) : Prop where
  numbered : added.map Placeholder.id = List.range' (start + 1) added.length
  plain : ∀ placeholder ∈ added, placeholder.kind.markup = false → '<' ∉ placeholder.replacement
  raws : (added.filter fun placeholder => placeholder.kind.markup).map Placeholder.replacement = markup

theorem Added.nil (start : Nat) : Added start [] [] := ⟨rfl, by simp, rfl⟩

theorem Added.append {start : Nat} {markup markup' : List Text} {added added' : List Placeholder}
    (first : Added start markup added) (second : Added (start + added.length) markup' added') :
    Added start (markup ++ markup') (added ++ added') := by
  constructor
  · have shift : start + added.length + 1 = start + 1 + 1 * added.length := by omega
    rw [List.map_append, first.numbered, second.numbered, List.length_append, shift,
      List.range'_append]
  · intro placeholder member
    rcases List.mem_append.mp member with early | late
    · exact first.plain placeholder early
    · exact second.plain placeholder late
  · rw [List.filter_append, List.map_append, first.raws, second.raws]

theorem Added.markup {start : Nat} {kind : PlaceholderKind} (source replacement : Text)
    (own : kind.markup = true) :
    Added start [replacement] [⟨start + 1, kind, source, replacement⟩] := by
  constructor
  · rfl
  · intro placeholder member other
    cases List.mem_singleton.mp member
    exact absurd (own.symm.trans other) (by decide)
  · simp [own]

theorem Added.fact (start : Nat) {kind : PlaceholderKind} (source : Text) {replacement : Text}
    (foreign : kind.markup = false) (plain : '<' ∉ replacement) :
    Added start [] [⟨start + 1, kind, source, replacement⟩] := by
  constructor
  · rfl
  · intro placeholder member _
    cases List.mem_singleton.mp member
    exact plain
  · simp [foreign]

section Text
variable {tables : Tables} {glossary : List GlossaryEntry}

theorem mem_claims {spans : List Span} {span : Span} (start : List Span)
    (member : span ∈ spans.foldl claim start) : span ∈ start ∨ span ∈ spans := by
  induction spans generalizing start with
  | nil => exact .inl member
  | cons head spans ih =>
    rcases ih _ member with early | late
    · unfold claim at early
      split at early
      · rcases List.mem_append.mp early with known | here
        · exact .inl known
        · exact .inr (List.mem_singleton.mp here ▸ List.mem_cons_self)
      · exact .inl early
    · exact .inr (List.mem_cons_of_mem head late)

/-- Nothing that is masked in a text is markup. -/
theorem candidates_foreign {plain : Text} {span : Span}
    (member : span ∈ candidates tables plain glossary) : span.kind.markup = false := by
  simp only [candidates, List.mem_append, List.mem_map, List.mem_flatMap] at member
  rcases member with (((⟨_, _, rfl⟩ | ⟨_, _, rfl⟩) | ⟨_, _, ⟨_, _, rfl⟩⟩) | ⟨_, _, rfl⟩) | ⟨_, _, rfl⟩
  all_goals rfl

theorem maskSpans_added (plain : Text) {spans : List Span}
    (foreign : ∀ span ∈ spans, span.kind.markup = false) (position : Nat)
    (placeholders : List Placeholder) :
    ∃ added, (maskSpans plain position spans placeholders).2 = placeholders ++ added ∧
      Added placeholders.length [] added := by
  induction spans generalizing position placeholders with
  | nil => exact ⟨[], (List.append_nil _).symm, .nil _⟩
  | cons span spans ih =>
    rw [List.forall_mem_cons] at foreign
    have here := Added.fact placeholders.length (slice plain span.start span.stop)
      foreign.1 (lt_not_mem_escape false span.replacement)
    obtain ⟨added, rest, later⟩ := ih foreign.2 span.stop (addPlaceholder placeholders span.kind
      (slice plain span.start span.stop) (escape false span.replacement)).2
    rw [addPlaceholder, List.length_append] at later
    refine ⟨_ :: added, ?_, here.append later⟩
    rw [maskSpans]
    exact rest.trans (by rw [addPlaceholder, List.append_assoc]; rfl)

theorem maskText_added (plain : Text) (placeholders : List Placeholder) :
    ∃ added, (maskText tables plain glossary placeholders).2 = placeholders ++ added ∧
      Added placeholders.length [] added := by
  apply maskSpans_added
  intro span member
  rw [List.mem_insertionSort] at member
  rcases mem_claims [] member with none | candidate
  · cases none
  · exact candidates_foreign candidate

end Text

section Segment
variable (tables : Tables) (glossary : List GlossaryEntry)

/-- The raw tags and protected blocks of the tokens. -/
def markupOf (tokens : List Token) : List Text :=
  (tokens.filter fun token => decide (token.kind ≠ .text)).map Token.raw

theorem maskToken_added (placeholders : List Placeholder) (token : Token) :
    ∃ added, (maskToken tables glossary placeholders token).2 = placeholders ++ added ∧
      Added placeholders.length (markupOf [token]) added := by
  obtain ⟨kind, raw, name, closing⟩ := token
  cases kind with
  | text => exact maskText_added (unescape tables raw) placeholders
  | tag => exact ⟨_, rfl, .markup raw raw rfl⟩
  | protectedBlock => exact ⟨_, rfl, .markup raw raw rfl⟩

theorem maskTokens_added (tokens : List Token) (placeholders : List Placeholder) :
    ∃ added, (maskTokens tables glossary placeholders tokens).2.1 = placeholders ++ added ∧
      Added placeholders.length (markupOf tokens) added := by
  induction tokens generalizing placeholders with
  | nil => exact ⟨[], (List.append_nil _).symm, .nil _⟩
  | cons token tokens ih =>
    obtain ⟨here, next, first⟩ := maskToken_added tables glossary placeholders token
    obtain ⟨later, last, second⟩ := ih (maskToken tables glossary placeholders token).2
    rw [next, List.length_append] at second
    refine ⟨here ++ later, ?_, ?_⟩
    · rw [maskTokens]
      exact last.trans (by rw [next, List.append_assoc])
    · have split : markupOf (token :: tokens) = markupOf [token] ++ markupOf tokens := by
        rw [markupOf, markupOf, markupOf, ← List.map_append, ← List.filter_append,
          List.singleton_append]
      exact split ▸ first.append second

theorem maskSegment_added (segment : Segment) :
    Added 0 (markupOf segment.tokens) (maskSegment tables segment glossary).placeholders := by
  obtain ⟨added, last, spec⟩ := maskTokens_added tables glossary segment.tokens []
  rw [List.nil_append] at last
  change Added 0 _ (maskTokens tables glossary [] segment.tokens).2.1
  rw [last]
  exact spec

end Segment

section Lookup
variable {markup : List Text} {masked : MaskedSegment}

theorem Added.nodup (spec : Added 0 markup masked.placeholders) :
    (masked.placeholders.map Placeholder.id).Nodup := by
  rw [spec.numbered]
  exact List.nodup_range'

theorem byId_eq_some {id : Nat} {placeholder : Placeholder}
    (found : masked.byId id = some placeholder) :
    placeholder ∈ masked.placeholders ∧ placeholder.id = id := by
  have member := List.mem_of_find?_eq_some found
  exact ⟨List.mem_reverse.mp member, by simpa using List.find?_some found⟩

theorem byId_of_nodup (distinct : (masked.placeholders.map Placeholder.id).Nodup)
    {placeholder : Placeholder} (member : placeholder ∈ masked.placeholders) :
    masked.byId placeholder.id = some placeholder := by
  cases found : masked.byId placeholder.id with
  | none =>
    have absent := List.find?_eq_none.mp found placeholder (List.mem_reverse.mpr member)
    simp at absent
  | some other =>
    obtain ⟨known, same⟩ := byId_eq_some found
    rw [List.inj_on_of_nodup_map distinct known member same]

theorem Added.byId (spec : Added 0 markup masked.placeholders) {placeholder : Placeholder}
    (member : placeholder ∈ masked.placeholders) : masked.byId placeholder.id = some placeholder :=
  byId_of_nodup spec.nodup member

end Lookup
end Collector.Translation
