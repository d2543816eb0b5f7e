import Collector.Lib.RegexRuns
import Collector.Translation.TrimmedRuns

/-!
What becomes of the texts of a run. A flush may cut a text between its sentences; what it emits has
every text of a visible chunk in one segment, without the whitespace at the ends of the chunk, and
keeps outside the segments only what is blank.
-/

namespace Collector.Translation
open Collector.Lib
open Collector.Persistence (isSpace)

/-- Text that is not blank once its references are replaced. -/
def nonBlank (tables : Tables) (raw : Text) : Bool := decide (strip (unescape tables raw) ≠ [])

/-- A text without some of the whitespace at its ends. -/
def Trimmed (whole part : Text) : Prop :=
  ∃ before behind, whole = before ++ part ++ behind ∧ (∀ c ∈ before, isSpace c = true) ∧
    ∀ c ∈ behind, isSpace c = true

/-- Every text that is not blank has one text of its own in the second list, in the same order; a
blank one has one or none. -/
inductive Lands (tables : Tables) : List Text → List Text → Prop where
  | nil : Lands tables [] []
  | skip {whole : Text} {wholes parts : List Text} (blank : nonBlank tables whole = false)
      (rest : Lands tables wholes parts) : Lands tables (whole :: wholes) parts
  | take {whole part : Text} {wholes parts : List Text} (trimmed : Trimmed whole part)
      (rest : Lands tables wholes parts) : Lands tables (whole :: wholes) (part :: parts)

/-- The raw texts of the text tokens. -/
def textsOf (tokens : List Token) : List Text :=
  (tokens.filter fun token => decide (token.kind = .text)).map Token.raw

theorem textsOf_append (first second : List Token) :
    textsOf (first ++ second) = textsOf first ++ textsOf second := by
  rw [textsOf, List.filter_append, List.map_append]
  rfl

theorem textsOf_cons_text {token : Token} (isText : token.kind = .text) (tokens : List Token) :
    textsOf (token :: tokens) = token.raw :: textsOf tokens := by
  rw [textsOf, List.filter_cons_of_pos (by simpa using isText), List.map_cons]
  rfl

theorem textsOf_cons_markup {token : Token} (markup : token.kind ≠ .text) (tokens : List Token) :
    textsOf (token :: tokens) = textsOf tokens := by
  rw [textsOf, List.filter_cons_of_neg (by simpa using markup)]
  rfl

theorem textsOf_eq_nil {tokens : List Token} (markup : ∀ token ∈ tokens, token.kind ≠ .text) :
    textsOf tokens = [] := by
  rw [textsOf, List.filter_eq_nil_iff.mpr, List.map_nil]
  intro token member
  rw [decide_eq_true_eq]
  exact markup token member

/-- The texts in the text segments. -/
def segmentTexts (segments : List Segment) : List Text :=
  (segments.filter fun segment => decide (segment.kind = .text)).flatMap fun segment =>
    textsOf segment.tokens

theorem segmentTexts_append (first second : List Segment) :
    segmentTexts (first ++ second) = segmentTexts first ++ segmentTexts second := by
  rw [segmentTexts, List.filter_append, List.flatMap_append]
  rfl

theorem segmentTexts_concat (segments : List Segment) {segment : Segment} (kind : segment.kind = .text) :
    segmentTexts (segments ++ [segment]) = segmentTexts segments ++ textsOf segment.tokens := by
  rw [segmentTexts_append]
  congr 1
  rw [segmentTexts, List.filter_cons_of_pos (by simpa using kind), List.filter_nil, List.flatMap_singleton]

section Lands
variable {tables : Tables}

theorem Lands.append {wholes wholes' parts parts' : List Text} (first : Lands tables wholes parts)
    (second : Lands tables wholes' parts') : Lands tables (wholes ++ wholes') (parts ++ parts') := by
  induction first with
  | nil => exact second
  | skip blank _ ih => exact .skip blank ih
  | take trimmed _ ih => exact .take trimmed ih

theorem Lands.blank {wholes : List Text} (blank : ∀ whole ∈ wholes, nonBlank tables whole = false) :
    Lands tables wholes [] := by
  induction wholes with
  | nil => exact .nil
  | cons whole wholes ih =>
    rw [List.forall_mem_cons] at blank
    exact .skip blank.1 (ih blank.2)

theorem Trimmed.refl (whole : Text) : Trimmed whole whole :=
  ⟨[], [], by simp, by simp, by simp⟩

theorem Trimmed.trans {whole middle part : Text} (outer : Trimmed whole middle)
    (inner : Trimmed middle part) : Trimmed whole part := by
  obtain ⟨before, behind, rfl, blankBefore, blankBehind⟩ := outer
  obtain ⟨before', behind', rfl, blankBefore', blankBehind'⟩ := inner
  refine ⟨before ++ before', behind' ++ behind, by simp, ?_, ?_⟩
  · intro c member
    exact (List.mem_append.mp member).elim (blankBefore c) (blankBefore' c)
  · intro c member
    exact (List.mem_append.mp member).elim (blankBehind' c) (blankBehind c)

theorem trimmed_lstrip (raw : Text) : Trimmed raw (lstrip raw) := by
  refine ⟨raw.takeWhile isSpace, [], ?_, fun c member => List.mem_takeWhile_imp member, by simp⟩
  rw [lstrip, List.append_nil, List.takeWhile_append_dropWhile]

theorem trimmed_rstrip (raw : Text) : Trimmed raw (rstrip raw) := by
  refine ⟨[], raw.rtakeWhile isSpace, ?_, by simp, fun c member => List.mem_rtakeWhile_imp member⟩
  rw [rstrip, List.nil_append, List.rdropWhile_append_rtakeWhile]

/-- Whitespace has no references. -/
theorem nonBlank_of_spaces {raw : Text} (spaces : ∀ c ∈ raw, isSpace c = true) :
    nonBlank tables raw = false := by
  have needs : ∀ u, Regex.Reads charref u → '&' ∈ u := by
    intro u read
    cases read with
    | seq head _ =>
      rw [Regex.eq_of_reads_text head]
      exact List.mem_append_left _ (List.mem_singleton_self _)
  have free : '&' ∉ raw := fun member => absurd (spaces '&' member) (by decide)
  have same : unescape tables raw = raw := Regex.sub_eq_self needs free
  have nothing : lstrip raw = [] := List.dropWhile_eq_nil_iff.mpr spaces
  rw [nonBlank, same, strip, nothing]
  rfl

/-- What is trimmed away altogether is blank. -/
theorem Trimmed.nil {whole : Text} (trimmed : Trimmed whole []) : nonBlank tables whole = false := by
  obtain ⟨before, behind, rfl, blankBefore, blankBehind⟩ := trimmed
  apply nonBlank_of_spaces
  intro c member
  rw [List.append_nil, List.mem_append] at member
  exact member.elim (blankBefore c) (blankBehind c)

end Lands

section Emit
variable (tables : Tables)

/-- A token that is another one, or its text without whitespace at the ends. -/
def TrimmedToken (token trimmed : Token) : Prop :=
  trimmed.kind = token.kind ∧ if token.kind = .text then Trimmed token.raw trimmed.raw else trimmed = token

theorem TrimmedToken.refl (token : Token) : TrimmedToken token token := by
  refine ⟨rfl, ?_⟩
  split
  · exact .refl _
  · rfl

theorem TrimmedToken.trans {first second third : Token} (outer : TrimmedToken first second)
    (inner : TrimmedToken second third) : TrimmedToken first third := by
  refine ⟨inner.1.trans outer.1, ?_⟩
  have one := outer.2
  have two := inner.2
  rw [outer.1] at two
  split at one
  · rename_i isText
    rw [if_pos isText] at two ⊢
    exact one.trans two
  · rename_i markup
    rw [if_neg markup] at two ⊢
    exact two.trans one

theorem TrimmedToken.join {first second third : List Token} (outer : List.Forall₂ TrimmedToken first second)
    (inner : List.Forall₂ TrimmedToken second third) : List.Forall₂ TrimmedToken first third := by
  induction outer generalizing third with
  | nil => exact inner
  | cons own _ ih =>
    cases inner with
    | cons next rest => exact .cons (own.trans next) (ih rest)

theorem trimHead_tokens (tokens : List Token) :
    List.Forall₂ TrimmedToken tokens (Segmenter.trimHead tokens).2 := by
  have same := List.forall₂_same.mpr fun token (_ : token ∈ tokens) => TrimmedToken.refl token
  unfold Segmenter.trimHead
  split
  · rename_i first rest
    split
    · rename_i isText
      refine .cons ⟨isText.symm, ?_⟩ (List.forall₂_same.mpr fun token _ => TrimmedToken.refl token)
      rw [if_pos isText]
      exact trimmed_lstrip first.raw
    · exact same
  · exact same

theorem trimTail_tokens (tokens : List Token) :
    List.Forall₂ TrimmedToken tokens (Segmenter.trimTail tokens).1 := by
  have same := List.forall₂_same.mpr fun token (_ : token ∈ tokens) => TrimmedToken.refl token
  unfold Segmenter.trimTail
  split
  · rename_i last found
    split
    · rename_i isText
      have split := List.dropLast_append_getLast? last found
      have init : List.Forall₂ TrimmedToken tokens.dropLast tokens.dropLast :=
        List.forall₂_same.mpr fun token _ => TrimmedToken.refl token
      have ends : TrimmedToken last ⟨.text, rstrip last.raw, [], false⟩ := by
        refine ⟨isText.symm, ?_⟩
        rw [if_pos isText]
        exact trimmed_rstrip last.raw
      have whole : List.Forall₂ TrimmedToken (tokens.dropLast ++ [last])
          (tokens.dropLast ++ [⟨.text, rstrip last.raw, [], false⟩]) := List.rel_append init (.cons ends .nil)
      rwa [split] at whole
    · exact same
  · exact same

/-- Trimmed texts land where they are kept; one that is trimmed away was blank. -/
theorem lands_of_trimmed {tokens trimmed : List Token} (paired : List.Forall₂ TrimmedToken tokens trimmed) :
    Lands tables (textsOf tokens) (textsOf (trimmed.filter fun token => decide (token.raw ≠ []))) := by
  induction paired with
  | nil => exact .nil
  | @cons token token' tokens trimmed own _ ih =>
    obtain ⟨kind, change⟩ := own
    by_cases isText : token.kind = .text
    · rw [if_pos isText] at change
      rw [textsOf_cons_text isText]
      by_cases empty : token'.raw = []
      · rw [empty] at change
        rw [List.filter_cons_of_neg (by simpa using empty)]
        exact .skip change.nil ih
      · rw [List.filter_cons_of_pos (by simpa using empty), textsOf_cons_text (kind.trans isText)]
        exact .take change ih
    · rw [if_neg isText] at change
      rw [change, textsOf_cons_markup isText]
      by_cases empty : token.raw = []
      · rwa [List.filter_cons_of_neg (by simpa using empty)]
      · rwa [List.filter_cons_of_pos (by simpa using empty), textsOf_cons_markup isText]

variable {tables} in
/-- Empty tokens have no text that is not blank. -/
theorem lands_of_filter {tokens : List Token} {parts : List Text}
    (lands : Lands tables (textsOf (tokens.filter fun token => decide (token.raw ≠ []))) parts) :
    Lands tables (textsOf tokens) parts := by
  induction tokens generalizing parts with
  | nil => exact lands
  | cons token tokens ih =>
    by_cases empty : token.raw = []
    · rw [List.filter_cons_of_neg (by simpa using empty)] at lands
      by_cases isText : token.kind = .text
      · rw [textsOf_cons_text isText, empty]
        exact .skip (nonBlank_of_spaces (by simp)) (ih lands)
      · rw [textsOf_cons_markup isText]
        exact ih lands
    · rw [List.filter_cons_of_pos (by simpa using empty)] at lands
      by_cases isText : token.kind = .text
      · rw [textsOf_cons_text isText] at lands ⊢
        cases lands with
        | skip blank rest => exact .skip blank (ih rest)
        | take trimmed rest => exact .take trimmed (ih rest)
      · rw [textsOf_cons_markup isText] at lands ⊢
        exact ih lands

/-- What a chunk adds to the segments has the texts of the chunk. -/
theorem lands_emit (s : Segmenter) (tokens : List Token) :
    ∃ parts, segmentTexts (s.emit tables tokens).segments = segmentTexts s.segments ++ parts ∧
      Lands tables (textsOf tokens) parts := by
  unfold Segmenter.emit
  dsimp only
  split
  · have outer := trimHead_tokens (tokens.filter fun token => decide (token.raw ≠ []))
    have inner := trimTail_tokens (Segmenter.trimHead (tokens.filter fun token => decide (token.raw ≠ []))).2
    have lands := lands_of_filter (lands_of_trimmed tables (TrimmedToken.join outer inner))
    refine ⟨_, ?_, lands⟩
    split
    · exact segmentTexts_concat s.segments rfl
    · exact segmentTexts_concat s.segments rfl
  · rename_i nothing
    refine ⟨[], (List.append_nil _).symm, lands_of_filter (.blank ?_)⟩
    intro raw member
    obtain ⟨token, kept, rfl⟩ := List.mem_map.mp member
    obtain ⟨listed, isText⟩ := List.mem_filter.mp kept
    rw [Bool.not_eq_true, List.any_eq_false] at nothing
    have hidden := nothing token listed
    rw [Segmenter.visible, isText, Bool.true_and, Bool.not_eq_true] at hidden
    exact hidden

theorem lands_foldl_emit (s : Segmenter) (chunks : List (List Token)) :
    ∃ parts, segmentTexts (chunks.foldl (Segmenter.emit tables) s).segments = segmentTexts s.segments ++ parts ∧
      Lands tables (textsOf chunks.flatten) parts := by
  induction chunks generalizing s with
  | nil => exact ⟨[], (List.append_nil _).symm, .nil⟩
  | cons chunk chunks ih =>
    obtain ⟨first, shown, lands⟩ := lands_emit tables s chunk
    obtain ⟨later, shown', lands'⟩ := ih (s.emit tables chunk)
    refine ⟨first ++ later, ?_, ?_⟩
    · rw [List.foldl_cons, shown', shown, List.append_assoc]
    · rw [List.flatten_cons, textsOf_append]
      exact lands.append lands'

end Emit

section Cuts
variable {maxChars : Option Int}

/-- A text in one piece, or under a limit in its sentences. -/
def Cut (maxChars : Option Int) (whole : Text) (pieces : List Text) : Prop :=
  pieces = [whole] ∨ maxChars ≠ none ∧ pieces = splitKeepingWhitespace whole

/-- The pieces of some texts, one text after the other. -/
def Cuts (maxChars : Option Int) (wholes pieces : List Text) : Prop :=
  ∃ cuts, List.Forall₂ (Cut maxChars) wholes cuts ∧ pieces = cuts.flatten

theorem Cuts.nil : Cuts maxChars [] [] := ⟨[], .nil, rfl⟩

theorem Cuts.append {wholes wholes' pieces pieces' : List Text} (first : Cuts maxChars wholes pieces)
    (second : Cuts maxChars wholes' pieces') : Cuts maxChars (wholes ++ wholes') (pieces ++ pieces') := by
  obtain ⟨cuts, paired, rfl⟩ := first
  obtain ⟨cuts', paired', rfl⟩ := second
  exact ⟨cuts ++ cuts', List.rel_append paired paired', List.flatten_append.symm⟩

theorem Cuts.cut {whole : Text} {pieces : List Text} (cut : Cut maxChars whole pieces) :
    Cuts maxChars [whole] pieces :=
  ⟨[pieces], .cons cut .nil, List.flatten_singleton.symm⟩

theorem Cuts.whole (wholes : List Text) : Cuts maxChars wholes wholes := by
  refine ⟨wholes.map fun whole => [whole], ?_, ?_⟩
  · induction wholes with
    | nil => exact .nil
    | cons whole wholes ih => exact .cons (.inl rfl) ih
  · rw [← List.flatMap_def]
    exact (List.flatMap_singleton' wholes).symm

/-- The raw texts of tokens with indexes. -/
def itemTexts (items : List Indexed) : List Text := textsOf (items.map Prod.fst)

theorem itemTexts_append (first second : List Indexed) :
    itemTexts (first ++ second) = itemTexts first ++ itemTexts second := by
  rw [itemTexts, List.map_append, textsOf_append]
  rfl

theorem itemTexts_sentenceUnits (index : Nat) (unit : List Indexed) (sentences : List Text) :
    itemTexts (sentenceUnits index unit sentences).1.flatten ++
      itemTexts (sentenceUnits index unit sentences).2 = itemTexts unit ++ sentences := by
  induction sentences generalizing unit with
  | nil => simp [sentenceUnits, itemTexts, textsOf]
  | cons sentence sentences ih =>
    rw [sentenceUnits]
    split
    · rw [ih, itemTexts_append, List.append_assoc]
      rfl
    · rw [List.flatten_cons, itemTexts_append, List.append_assoc, ih, itemTexts_append, List.append_assoc]
      rfl

theorem cuts_unitsOf (limit : Int) (pairs : List (Nat × Nat)) (depth : Int) (unit items : List Indexed) :
    ∃ pieces, itemTexts (unitsOf pairs depth unit items).flatten = itemTexts unit ++ pieces ∧
      Cuts (some limit) (itemTexts items) pieces := by
  induction items generalizing depth unit with
  | nil => exact ⟨[], by simp [unitsOf], .nil⟩
  | cons item items ih =>
    obtain ⟨token, index⟩ := item
    have head : itemTexts ((token, index) :: items) = itemTexts [(token, index)] ++ itemTexts items :=
      itemTexts_append [(token, index)] items
    rw [unitsOf, head]
    dsimp only
    split
    · obtain ⟨pieces, same, cuts⟩ := ih (depth + depthChange pairs index) (unit ++ [(token, index)])
      refine ⟨itemTexts [(token, index)] ++ pieces, ?_, (Cuts.whole _).append cuts⟩
      rw [same, itemTexts_append, List.append_assoc]
    · rename_i inside
      rw [not_or, not_not] at inside
      have sentences := itemTexts_sentenceUnits index unit (splitKeepingWhitespace token.raw)
      obtain ⟨pieces, same, cuts⟩ := ih (depth + depthChange pairs index)
        (sentenceUnits index unit (splitKeepingWhitespace token.raw)).2
      have own : itemTexts [(token, index)] = [token.raw] := textsOf_cons_text inside.1 []
      refine ⟨splitKeepingWhitespace token.raw ++ pieces, ?_, ?_⟩
      · rw [List.flatten_append, itemTexts_append, same, ← List.append_assoc, sentences,
          List.append_assoc]
      · rw [own]
        exact (Cuts.cut (.inr ⟨by rintro ⟨⟩, rfl⟩)).append cuts

theorem flatten_foldl_addUnit (tables : Tables) (limit : Int) (units chunks : List (List Indexed)) :
    (units.foldl (addUnit tables limit) chunks).flatten = chunks.flatten ++ units.flatten := by
  induction units generalizing chunks with
  | nil => simp
  | cons unit units ih =>
    have step : (addUnit tables limit chunks unit).flatten = chunks.flatten ++ unit := by
      unfold addUnit
      split
      · rename_i last found
        have whole := List.dropLast_append_getLast? last found
        split
        · conv_rhs => rw [← whole]
          simp
        · split
          · simp [*]
          · simp
      · split
        · simp [*]
        · simp
    rw [List.foldl_cons, ih, step, List.flatten_cons, List.append_assoc]

/-- The chunks have the texts of the run, some of them cut. -/
theorem cuts_chunksOf (tables : Tables) (tokens : List Token) :
    Cuts maxChars (textsOf tokens) (textsOf (chunksOf tables maxChars tokens).flatten) := by
  have single : (([tokens.zipIdx].map fun chunk => chunk.map Prod.fst) : List (List Token)).flatten =
      tokens := by
    rw [List.map_singleton, List.flatten_singleton, List.zipIdx_map_fst]
  unfold chunksOf indexedChunks
  split
  · rw [single]
    exact .whole _
  · rename_i limit
    split
    · rw [single]
      exact .whole _
    · obtain ⟨pieces, same, cuts⟩ := cuts_unitsOf limit (matchedTagPairs tokens) 0 [] tokens.zipIdx
      have numbered : itemTexts tokens.zipIdx = textsOf tokens := by rw [itemTexts, List.zipIdx_map_fst]
      rw [← List.map_flatten, flatten_foldl_addUnit, List.flatten_nil, List.nil_append, ← itemTexts, same,
        ← numbered]
      exact cuts

end Cuts

end Collector.Translation
