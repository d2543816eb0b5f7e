import Collector.Lib.Dict
import Collector.Translation.Memory
import Collector.Translation.Planner
import Collector.Translation.Preservation

/-!
`execute_plan`. The masked segments that the memory does not know go to the provider, one call for a
language; every translation is checked against its own segment; what passes is stored, and the
fields are put together only if everything passed. The provider is a function of one run, so two
runs may meet two providers.
-/

namespace Collector.Translation
open Collector.Lib
open Collector.Contracts (CanonicalEncodingError)

structure Glossary where
  version : String
  pairs : List (String × List GlossaryEntry)

/-- The entries for any language and those for this one. -/
def Glossary.entriesFor (glossary : Glossary) (sourceLanguage : String) : List GlossaryEntry :=
  (glossary.pairs.lookup "*").getD [] ++ (glossary.pairs.lookup sourceLanguage).getD []

structure ProviderIdentity where
  name : String
  modelVersion : String

/-- `(masked_texts, source_language, target_language) -> translations`, or what the provider raises. -/
abbrev SegmentTranslator (E : Type) := List Text → String → String → Except E (List Text)

structure TranslationOutcome where
  notRequired : Bool
  complete : Bool
  title : Option Text := none
  lead : Option Text := none
  bodyHtml : Option Text := none
  qualityFlags : Finset QualityFlag := ∅
  memoryHits : Nat := 0
  providerSegments : Nat := 0
  providerCharacters : Nat := 0

structure Job where
  planned : PlannedSegment
  masked : MaskedSegment
  key : String
  segmentHash : String

/-- `language or ""`. -/
def PlannedSegment.sourceLanguage (planned : PlannedSegment) : String :=
  planned.language.language.getD ""

def Job.language (job : Job) : String := job.planned.sourceLanguage

/-- The place of a translated segment, and its final text. -/
structure Final where
  field : ArticleField
  index : Nat
  text : Text

def Final.place (final : Final) : ArticleField × Nat := (final.field, final.index)

/-- A call of the provider. -/
structure Call where
  texts : List Text
  sourceLanguage : String

/-- What the loop over the languages has done so far. -/
structure Sending (E : Type) where
  calls : List Call
  translated : String → Option Text
  truncated : Bool
  raised : Option E

inductive RunError (E : Type) where
  | encoding (e : CanonicalEncodingError)
  | provider (e : E)
  /-- The exceptions of `reassemble`. -/
  | reassembly

/-- One run: its answer, the memory it leaves and what it sent. -/
structure PlanRun (E : Type) where
  outcome : Except (RunError E) TranslationOutcome
  memory : TranslationMemory
  calls : List Call

section Run
variable {E : Type} (tables : Tables) (glossary : Glossary) (provider : ProviderIdentity)

/-- `_job`. -/
def job (target : String) (planned : PlannedSegment) : Except CanonicalEncodingError Job := do
  let masked := maskSegment tables planned.segment (glossary.entriesFor planned.sourceLanguage)
  let segmentHash := normalizedSegmentHash tables masked.text
  let key ← translationMemoryKey tables planned.sourceLanguage target segmentHash provider.name
    provider.modelVersion glossary.version
  return ⟨planned, masked, key, segmentHash⟩

/-- The language and the key of a job: its place in `pending`. -/
def Job.slot (job : Job) : String × String := (job.language, job.key)

/-- `pending`: the first job of every language and key that the memory does not know, by language in
the order of `setdefault`. -/
def pendingJobs (memory : TranslationMemory) (jobs : List Job) : List (String × List Job) :=
  let unknown := jobs.filter fun job => (memory.text? job.key).isNone
  let first : Table Job.slot := Table.insertMany ∅ unknown
  let languages : Table (id : String → String) := Table.insertMany ∅ (unknown.map Job.language)
  languages.rows.map fun language =>
    (language, first.rows.filter fun job => decide (job.language = language))

/-- `translated.update(zip(batch, results))`. -/
def update (translated : String → Option Text) (keys : List String) (results : List Text) :
    String → Option Text :=
  (keys.zip results).foldl (fun translated (key, text) => Function.update translated key (some text))
    translated

def sendBatches (translator : SegmentTranslator E) (target : String) :
    List (String × List Job) → Sending E → Sending E
  | [], sending => sending
  | (language, batch) :: pending, sending =>
    let texts := batch.map fun job => job.masked.text
    let sending := { sending with calls := sending.calls ++ [Call.mk texts language] }
    match translator texts language target with
    | .error e => { sending with raised := some e }
    | .ok results =>
      if results.length ≠ texts.length then
        sendBatches translator target pending { sending with truncated := true }
      else
        sendBatches translator target pending
          { sending with translated := update sending.translated (batch.map Job.key) results }

attribute [grind =] sendBatches

/-- The translation of a job, when there is one and it keeps what it has to keep. -/
def passing (translated : String → Option Text) (job : Job) : Option Text :=
  (translated job.key).filter fun text => (validatePreservation tables job.masked text).ok

/-- A translation is there and fails the check. -/
def failing (translated : String → Option Text) (job : Job) : Bool :=
  (translated job.key).any fun text => !(validatePreservation tables job.masked text).ok

/-- The text that takes the place of a segment. -/
def placed (job : Job) (text : Text) : Final :=
  let html := (validatePreservation tables job.masked text).html
  ⟨job.planned.field, job.planned.segment.index,
    if job.planned.segment.kind = .attribute then unescape tables html else html⟩

def finals (translated : String → Option Text) (jobs : List Job) : Table Final.place :=
  Table.setMany ∅ (jobs.filterMap fun job => (passing tables translated job).map (placed tables job))

/-- `_entry`. -/
def entry (target : String) (job : Job) (text : Text) : MemoryEntry where
  key := job.key
  sourceLanguage := job.language
  targetLanguage := target
  segmentHash := job.segmentHash
  provider := provider.name
  modelVersion := provider.modelVersion
  glossaryVersion := glossary.version
  translatedText := text

def newEntries (memory : TranslationMemory) (target : String) (translated : String → Option Text)
    (jobs : List Job) : Table MemoryEntry.key :=
  Table.setMany ∅ ((jobs.filter fun job => (memory.text? job.key).isNone).filterMap fun job =>
    (passing tables translated job).map (entry glossary provider target job))

/-- `_original`. -/
def original (planned : PlannedSegment) : Text :=
  if planned.segment.kind = .attribute then planned.segment.text tables else planned.segment.html

/-- The text of one field. -/
def assembleField (finals : Table Final.place) (fieldPlan : FieldPlan) : Option Text :=
  reassemble tables fieldPlan.document (fieldPlan.segments.map fun planned =>
    ((finals.find? (fieldPlan.field, planned.segment.index)).map Final.text).getD
      (original tables planned))

/-- `assembled`: the fields in their order, where a later one of a name counts. -/
def assemble (finals : Table Final.place) (plan : TranslationPlan) :
    Option (List (ArticleField × Text)) :=
  plan.fields.mapM fun fieldPlan =>
    (assembleField tables finals fieldPlan).map fun text => (fieldPlan.field, text)

def field (assembled : List (ArticleField × Text)) (name : ArticleField) : Option Text :=
  assembled.reverse.lookup name

/-- The flags of a run. -/
def runFlags (plan : TranslationPlan) (sending : Sending E) (jobs : List Job) : Finset QualityFlag :=
  plan.qualityFlags ∪ (if sending.truncated then {.providerTruncated} else ∅) ∪
    (if jobs.any (failing tables sending.translated) then {.preservationFailed} else ∅)

/-- The answer of a run from its parts. -/
def runOutcome (memory : TranslationMemory) (plan : TranslationPlan) (jobs : List Job)
    (sending : Sending E) : Except (RunError E) TranslationOutcome :=
  let finals := finals tables sending.translated jobs
  let outcome : TranslationOutcome :=
    { notRequired := false
      complete := false
      qualityFlags := runFlags tables plan sending jobs
      memoryHits := jobs.countP fun job => (memory.text? job.key).isSome
      providerSegments := (sending.calls.map fun call => call.texts.length).sum
      providerCharacters := (sending.calls.map fun call => (call.texts.map List.length).sum).sum }
  if finals.rows.length ≠ jobs.length ∨ .languageUnsupported ∈ outcome.qualityFlags ∨
      .providerTruncated ∈ outcome.qualityFlags then .ok outcome
  else
    match assemble tables finals plan with
    | none => .error .reassembly
    | some assembled => .ok
      { outcome with
        complete := true
        title := (field assembled .title).map (unescape tables)
        lead := (field assembled .lead).map (unescape tables)
        bodyHtml := field assembled .body }

def executeJobs (memory : TranslationMemory) (translator : SegmentTranslator E)
    (plan : TranslationPlan) (jobs : List Job) : PlanRun E :=
  let sending := sendBatches translator plan.targetLanguage (pendingJobs memory jobs)
    ⟨[], memory.text?, false, none⟩
  match sending.raised with
  | some e => ⟨.error (.provider e), memory, sending.calls⟩
  | none => ⟨runOutcome tables memory plan jobs sending,
      memory.putMany (newEntries tables glossary provider memory plan.targetLanguage
        sending.translated jobs).rows, sending.calls⟩

def executePlan (memory : TranslationMemory) (translator : SegmentTranslator E)
    (plan : TranslationPlan) : PlanRun E :=
  if plan.notRequired then
    ⟨.ok { notRequired := true, complete := true, qualityFlags := plan.qualityFlags }, memory, []⟩
  else
    match plan.toTranslate.mapM (job tables glossary provider plan.targetLanguage) with
    | .error e => ⟨.error (.encoding e), memory, []⟩
    | .ok jobs => executeJobs tables glossary provider memory translator plan jobs

end Run

end Collector.Translation
