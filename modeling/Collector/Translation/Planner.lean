import Collector.Fetch.Classify
import Collector.Translation.Segmenter
import Mathlib.Data.Finset.Basic

/-!
The plan of a translation: the fields of an article, their segments, and what is to be done with
each of them. How a language is detected stands here as two functions; the classifier and its
confidences are not modelled.
-/

namespace Collector.Translation
open Collector.Fetch (ContentAccess)

inductive ArticleField where
  | title
  | lead
  | body
  deriving DecidableEq, Repr

inductive SegmentAction where
  | translate
  | keep
  | unsupported
  deriving DecidableEq, Repr

inductive QualityFlag where
  | preservationFailed
  | lowLanguageConfidence
  | providerTruncated
  | languageUnsupported
  | untranslatedContent
  deriving DecidableEq, Repr

structure LanguageDecision where
  language : Option String
  uncertain : Bool
  deriving DecidableEq, Repr

structure PlannedSegment where
  field : ArticleField
  segment : Segment
  language : LanguageDecision
  action : SegmentAction
  deriving DecidableEq

structure FieldPlan where
  field : ArticleField
  document : SegmentedDocument
  segments : List PlannedSegment

/-- `TARGET_LANGUAGE`. -/
def targetLanguage : String := "uk"

structure TranslationPlan where
  articleLanguage : LanguageDecision
  fields : List FieldPlan
  untranslatedContent : Bool
  targetLanguage : String

namespace TranslationPlan

def segments (plan : TranslationPlan) : List PlannedSegment := plan.fields.flatMap FieldPlan.segments

def toTranslate (plan : TranslationPlan) : List PlannedSegment :=
  plan.segments.filter fun planned => decide (planned.action = .translate)

def notRequired (plan : TranslationPlan) : Bool :=
  decide (plan.articleLanguage.language = some Translation.targetLanguage) &&
    !plan.untranslatedContent && plan.segments.all fun planned => decide (planned.action = .keep)

def qualityFlags (plan : TranslationPlan) : Finset QualityFlag :=
  (if plan.segments.any fun planned => decide (planned.action = .unsupported) then
    {.languageUnsupported} else ∅) ∪
  (if plan.segments.any fun planned => planned.language.uncertain then
    {.lowLanguageConfidence} else ∅) ∪
  (if plan.untranslatedContent then {.untranslatedContent} else ∅)

end TranslationPlan

/-- The original of one version of an article; the heads are plain text. -/
structure ArticleText where
  contentAccess : ContentAccess
  originalLanguage : Option Text
  title : Option Text
  lead : Option Text
  bodyHtml : Option Text

/-- `detect_article_language` and `detect_segment_language` with their classifier and thresholds. -/
structure Detection where
  article : Option Text → Option Text → Text → LanguageDecision
  segment : Text → Option Text → LanguageDecision → LanguageDecision

/-- `_action`. -/
def action (supported : List String) (decision : LanguageDecision) : SegmentAction :=
  match decision.language with
  | none => .unsupported
  | some language =>
    if language = targetLanguage then .keep
    else if language ∈ supported then .translate
    else .unsupported

section Planning
variable (tables : Tables) (parse : Text → List ParserEvent) (detection : Detection)
  (supported : List String) (maxSegmentChars : Option Int) (translateAttributes : List Text)

/-- The documents of the fields that are there; the body counts only with access to it. -/
def documents (article : ArticleText) : List (ArticleField × SegmentedDocument) :=
  let heads := [(ArticleField.title, article.title), (.lead, article.lead)].filterMap
    fun (name, text) => (text.filter fun text => decide (strip text ≠ [])).map
      fun text => (name, segmentHtml tables parse none [] (escape false text))
  let body :=
    if article.contentAccess = .full ∨ article.contentAccess = .partially then
      article.bodyHtml.map fun html =>
        (ArticleField.body, segmentHtml tables parse maxSegmentChars translateAttributes html)
    else none
  heads ++ body.toList

/-- `" ".join(…)`. -/
def joined (texts : List Text) : Text := [' '].intercalate texts

def planArticleTranslation (article : ArticleText) : TranslationPlan :=
  let documents := documents tables parse maxSegmentChars translateAttributes article
  let rootLang := (documents.find? fun entry => decide (entry.1 = .body)).bind fun entry =>
    entry.2.rootLang
  let articleLanguage := detection.article article.originalLanguage rootLang
    (joined ((documents.flatMap fun entry => entry.2.segments).map (Segment.text tables)))
  let fields := documents.map fun (name, document) =>
    let segments := document.segments.map fun segment =>
      -- The language of the root is the article's, not the segment's.
      let ownLang := if segment.lang = document.rootLang then none else segment.lang
      let decision := detection.segment (segment.text tables) ownLang articleLanguage
      ⟨name, segment, decision, action supported decision⟩
    ⟨name, document, segments⟩
  ⟨articleLanguage, fields, documents.any fun entry => entry.2.unterminatedProtected, targetLanguage⟩

end Planning

end Collector.Translation
