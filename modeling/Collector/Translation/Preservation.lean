import Collector.Translation.Patterns

/-!
Masking and the check of a translation. A segment goes to the provider with its inline tags, its
protected blocks and its facts replaced by placeholders; what comes back is compared with the
source after the placeholders are put back.
-/

namespace Collector.Translation
open Collector.Lib

structure GlossaryEntry where
  term : Text
  target : Option Text
  deriving DecidableEq

def GlossaryEntry.replacement (entry : GlossaryEntry) : Text := entry.target.getD entry.term

inductive PlaceholderKind where
  | tag
  /-- `"protected"`. -/
  | protectedBlock
  | url
  | email
  | glossary
  | date
  | number
  deriving DecidableEq

inductive PreservationIssue where
  | placeholderMissing
  | placeholderDuplicated
  | placeholderUnknown
  | tagOrderBroken
  | tagMismatch
  | numberMismatch
  | urlMismatch
  | emailMismatch
  deriving DecidableEq, Repr

structure Placeholder where
  id : Nat
  kind : PlaceholderKind
  source : Text
  replacement : Text
  deriving DecidableEq

structure MaskedSegment where
  text : Text
  sourceHtml : Text
  placeholders : List Placeholder
  tagPairs : List (Nat × Nat)
  deriving DecidableEq

/-- `by_id`: the last placeholder of an identifier. -/
def MaskedSegment.byId (masked : MaskedSegment) (id : Nat) : Option Placeholder :=
  masked.placeholders.reverse.find? fun placeholder => decide (placeholder.id = id)

/-- The identifier of a match of `PLACEHOLDER_RE`. -/
def placeholderId (tables : Tables) (hit : Regex.Hit) : Nat := tables.int (hit.groups.headD [])

/-- The replacement of a match; an unknown one stays as it is. -/
def MaskedSegment.replace (tables : Tables) (masked : MaskedSegment) (hit : Regex.Hit) : Text :=
  ((masked.byId (placeholderId tables hit)).map Placeholder.replacement).getD hit.text

def MaskedSegment.unmask (tables : Tables) (masked : MaskedSegment) (translated : Text) : Text :=
  (placeholderRe tables).sub (masked.replace tables) translated

structure PreservationResult where
  issues : List PreservationIssue
  html : Text
  deriving DecidableEq

def PreservationResult.ok (result : PreservationResult) : Bool := result.issues.isEmpty

section Masking

/-- `add`: the placeholder's text and the placeholders with it. -/
def addPlaceholder (placeholders : List Placeholder) (kind : PlaceholderKind)
    (source replacement : Text) : Text × List Placeholder :=
  let id := placeholders.length + 1
  (placeholderText id, placeholders ++ [⟨id, kind, source, replacement⟩])

/-- A part of the text that a placeholder replaces. -/
structure Span where
  start : Nat
  stop : Nat
  kind : PlaceholderKind
  replacement : Text

/-- `claim`: a span is taken unless it is empty or overlaps one that is. -/
def claim (spans : List Span) (span : Span) : List Span :=
  if span.start < span.stop ∧
      spans.all fun other => decide (span.stop ≤ other.start ∨ other.stop ≤ span.start) then
    spans ++ [span]
  else spans

/-- What may be masked, in the order of precedence. -/
def candidates (tables : Tables) (plain : Text) (glossary : List GlossaryEntry) : List Span :=
  let found (kind : PlaceholderKind) (spans : List (Nat × Nat)) : List Span :=
    spans.map fun (start, stop) => ⟨start, stop, kind, slice plain start stop⟩
  let longest := glossary.insertionSort fun a b => b.term.length ≤ a.term.length
  found .url (urlSpans plain) ++ found .email ((emailRe tables).spans plain) ++
    longest.flatMap (fun entry => ((termRe tables entry.term).spans plain).map
      fun (start, stop) => ⟨start, stop, .glossary, entry.replacement⟩) ++
    found .date ((dateRe tables).spans plain) ++ found .number ((amountRe tables).spans plain)

/-- The text from a position on, with its spans replaced and the rest escaped. -/
def maskSpans (plain : Text) : Nat → List Span → List Placeholder → Text × List Placeholder
  | position, [], placeholders => (escape false (plain.drop position), placeholders)
  | position, span :: spans, placeholders =>
    let (mark, placeholders) := addPlaceholder placeholders span.kind
      (slice plain span.start span.stop) (escape false span.replacement)
    let (rest, placeholders) := maskSpans plain span.stop spans placeholders
    (escape false (slice plain position span.start) ++ mark ++ rest, placeholders)

/-- `_mask_text`. -/
def maskText (tables : Tables) (plain : Text) (glossary : List GlossaryEntry)
    (placeholders : List Placeholder) : Text × List Placeholder :=
  let spans := (candidates tables plain glossary).foldl claim []
  maskSpans plain 0 (spans.insertionSort fun a b => a.start ≤ b.start) placeholders

def maskToken (tables : Tables) (glossary : List GlossaryEntry) (placeholders : List Placeholder)
    (token : Token) : Text × List Placeholder :=
  match token.kind with
  | .text => maskText tables (unescape tables token.raw) glossary placeholders
  | .tag => addPlaceholder placeholders .tag token.raw token.raw
  | .protectedBlock => addPlaceholder placeholders .protectedBlock token.raw token.raw

/-- The masked text of the tokens, the placeholders after them and, for each token, how many
placeholders there are once it is masked. -/
def maskTokens (tables : Tables) (glossary : List GlossaryEntry) :
    List Placeholder → List Token → Text × List Placeholder × List Nat
  | placeholders, [] => ([], placeholders, [])
  | placeholders, token :: tokens =>
    let (piece, placeholders) := maskToken tables glossary placeholders token
    let (rest, last, ids) := maskTokens tables glossary placeholders tokens
    (piece ++ rest, last, placeholders.length :: ids)

def maskSegment (tables : Tables) (segment : Segment) (glossary : List GlossaryEntry) :
    MaskedSegment :=
  let (text, placeholders, ids) := maskTokens tables glossary [] segment.tokens
  -- The identifier of a tag is the count of placeholders right after it: `token_ids`.
  let pairs := (matchedTagPairs segment.tokens).map fun (opened, closed) =>
    (ids.getD opened 0, ids.getD closed 0)
  ⟨text, segment.html, placeholders, pairs⟩

end Masking

section Checks
variable (tables : Tables)

/-- `Counter(a) == Counter(b)`. -/
def sameCounts {α : Type} [DecidableEq α] (a b : List α) : Bool :=
  (a ++ b).all fun x => decide (a.count x = b.count x)

/-- `_expected_numbers(…) == numbers`: the numbers of a glossary term give way to those of its
form, and counts below zero are dropped. -/
def numbersExpected (masked : MaskedSegment) (sourceText : Text) (found : List Text) : Bool :=
  let terms := masked.placeholders.filter fun placeholder => decide (placeholder.kind = .glossary)
  let given := numbers tables sourceText
  let removed := terms.flatMap fun placeholder => numbers tables placeholder.source
  let added := terms.flatMap fun placeholder => numbers tables (unescape tables placeholder.replacement)
  (given ++ added ++ found).all fun n =>
    decide (given.count n + added.count n - removed.count n = found.count n)

/-- `_tags_reordered`: a later position of an identifier counts. -/
def tagsReordered (pairs : List (Nat × Nat)) (found : List Nat) : Bool :=
  let position (id : Nat) : Option Nat := (found.reverse.idxOf? id).map (found.length - 1 - ·)
  let spans := pairs.filterMap fun (opened, closed) =>
    (position opened).bind fun start => (position closed).map fun stop => (start, stop)
  spans.any (fun (start, stop) => decide (stop < start)) ||
    spans.any fun a => spans.any fun b => decide (a.1 < b.1 ∧ b.1 < a.2 ∧ a.2 < b.2)

/-- The issue when the condition holds. -/
def issueIf (condition : Bool) (issue : PreservationIssue) : List PreservationIssue :=
  if condition then [issue] else []

def validatePreservation (masked : MaskedSegment) (translated : Text) : PreservationResult :=
  let found := ((placeholderRe tables).hits translated).map (placeholderId tables)
  let expected := masked.placeholders.map Placeholder.id
  let restored := masked.unmask tables translated
  let sourceText := visibleText tables masked.sourceHtml
  let restoredText := visibleText tables restored
  ⟨issueIf (expected.any fun id => decide (id ∉ found)) .placeholderMissing ++
    issueIf (found.any fun id => decide (1 < found.count id)) .placeholderDuplicated ++
    issueIf (found.any fun id => decide (id ∉ expected)) .placeholderUnknown ++
    issueIf (tagsReordered masked.tagPairs found) .tagOrderBroken ++
    issueIf (!sameCounts (tags restored) (tags masked.sourceHtml)) .tagMismatch ++
    issueIf (!numbersExpected tables masked sourceText (numbers tables restoredText))
      .numberMismatch ++
    issueIf (!sameCounts (urls sourceText) (urls restoredText)) .urlMismatch ++
    issueIf (!sameCounts (emails tables sourceText) (emails tables restoredText)) .emailMismatch,
    restored⟩

end Checks
end Collector.Translation
