import Collector.Translation.AllOrNothing
import Collector.Translation.Smuggling

/-!
The retry of a segment whose translation failed the check. The next run sends it again only if the
memory still has nothing under its key. The key says nothing of what the placeholders stand for, so
a translation that another segment accepts fills the key and the failed one is never sent again.
-/

namespace Collector.Translation
open Collector.Lib

section Retry
variable {E : Type} {tables : Tables} {glossary : Glossary} {provider : ProviderIdentity}

/-- The provider got the masked text of the job, in its language. -/
def PlanRun.Sends (run : PlanRun E) (job : Job) : Prop :=
  ∃ call ∈ run.calls, call.sourceLanguage = job.language ∧ job.masked.text ∈ call.texts

/-- The first job of the same language and key has the same masked text. -/
def Leads (jobs : List Job) (job : Job) : Prop :=
  (jobs.find? fun other => decide (other.slot = job.slot)).map (fun first => first.masked.text) =
    some job.masked.text

/-- The text that a run has for the job fails the check. -/
def Fails (tables : Tables) (sending : Sending E) (job : Job) (text : Text) : Prop :=
  sending.translated job.key = some text ∧ (validatePreservation tables job.masked text).ok = false

/-- The flag of a run stands for the segments that fail. -/
theorem preservationFailed_mem {plan : TranslationPlan} {sending : Sending E} {jobs : List Job} :
    .preservationFailed ∈ runFlags tables plan sending jobs ↔
      ∃ job ∈ jobs, ∃ text, Fails tables sending job text := by
  have fails : jobs.any (failing tables sending.translated) = true ↔
      ∃ job ∈ jobs, ∃ text, Fails tables sending job text := by
    simp only [List.any_eq_true, failing, Option.any_eq_true, Bool.not_eq_true', Fails]
  rw [← fails]
  unfold runFlags TranslationPlan.qualityFlags
  simp only [Finset.mem_union]
  constructor
  · rintro ((((flag | flag) | flag) | flag) | flag) <;> split at flag <;> simp_all
  · intro failed
    right
    rw [if_pos failed]
    exact Finset.mem_singleton_self _

/-- A run with a segment that fails answers; it does not come to the fields. -/
theorem isOk_runOutcome {memory : TranslationMemory} {plan : TranslationPlan} {sending : Sending E}
    {jobs : List Job} {job : Job} {text : Text} (member : job ∈ jobs)
    (fails : Fails tables sending job text) :
    (runOutcome tables memory plan jobs sending).isOk = true := by
  have missing : (finals tables sending.translated jobs).rows.length ≠ jobs.length := by
    intro all
    obtain ⟨own, passes, _⟩ := finals_spec all member
    obtain ⟨used, passes⟩ := passing_eq_some.mp passes
    rw [fails.1, Option.some.injEq] at used
    rw [← used, fails.2] at passes
    cases passes
  unfold runOutcome
  rw [if_pos (.inl missing)]
  rfl

/-- The key of a job is that of its masked text and its language. -/
theorem key_eq {target : String} {planned other : PlannedSegment} {made made' : Job}
    (of : JobOf tables glossary provider target planned made)
    (of' : JobOf tables glossary provider target other made') (language : made.language = made'.language)
    (text : made.masked.text = made'.masked.text) : made.key = made'.key := by
  have own {planned : PlannedSegment} {made : Job}
      (of : JobOf tables glossary provider target planned made) :
      translationMemoryKey tables made.language target (normalizedSegmentHash tables made.masked.text)
        provider.name provider.modelVersion glossary.version = .ok made.key := by
    obtain ⟨key, found, run⟩ := Except.bind_eq_ok.mp of.run
    cases run
    exact found
  have same := own of
  rw [language, text, own of', Except.ok.injEq] at same
  exact same.symm

/-- What a run sends: the segments without a text in the memory, each by the first job of its key. -/
theorem sends_iff {memory : TranslationMemory} {translator : SegmentTranslator E}
    {plan : TranslationPlan} {jobs : List Job} {job : Job}
    (each : List.Forall₂ (JobOf tables glossary provider plan.targetLanguage) plan.toTranslate jobs)
    (member : job ∈ jobs) (finished : (sent memory translator plan jobs).raised = none) :
    (∃ call ∈ (sent memory translator plan jobs).calls, call.sourceLanguage = job.language ∧
      job.masked.text ∈ call.texts) ↔ memory.text? job.key = none ∧ Leads jobs job := by
  unfold sent at finished ⊢
  rw [calls_sendBatches finished, List.nil_append]
  simp only [List.mem_map, Prod.exists]
  constructor
  · rintro ⟨_, ⟨language, batch, waiting, rfl⟩, rfl, listed⟩
    obtain ⟨other, inside, text⟩ := List.mem_map.mp listed
    obtain ⟨language, unknown, first⟩ := mem_pendingJobs.mp ⟨batch, waiting, inside⟩
    obtain ⟨_, _, of⟩ := forall₂_of_mem_right each (List.mem_of_find?_eq_some first)
    obtain ⟨_, _, of'⟩ := forall₂_of_mem_right each member
    have key := key_eq of of' language text
    have slot : other.slot = job.slot := Prod.ext language key
    refine ⟨key ▸ unknown, ?_⟩
    rw [Leads, ← slot, first, Option.map_some, text]
  · rintro ⟨unknown, leads⟩
    obtain ⟨first, found, text⟩ := Option.map_eq_some_iff.mp leads
    have slot : first.slot = job.slot := by simpa using List.find?_some found
    have language : first.language = job.language := congrArg Prod.fst slot
    have key : first.key = job.key := congrArg Prod.snd slot
    obtain ⟨batch, waiting, inside⟩ := mem_pendingJobs.mpr
      ⟨language, key.symm ▸ unknown, slot.symm ▸ found⟩
    exact ⟨_, ⟨job.language, batch, waiting, rfl⟩, rfl, List.mem_map.mpr ⟨first, inside, text⟩⟩

/-- Whether the memory has a text of a key after a run that knew one. -/
theorem text?_stored_eq_none {memory : TranslationMemory} {target : String}
    {translated : String → Option Text} {jobs : List Job} {key : String} {text : Text}
    (known : translated key = some text) :
    (stored tables glossary provider memory target translated jobs).text? key = none ↔
      memory.text? key = none ∧ ∀ other ∈ jobs, other.key = key →
        (validatePreservation tables other.masked text).ok = false := by
  cases before : memory.text? key with
  | some old => simp [text?_stored_of_some before]
  | none =>
    rw [Option.eq_none_iff_forall_ne_some]
    simp only [true_and, ne_eq, text?_stored_of_none before, known, Option.some.injEq]
    constructor
    · intro free other member same
      rw [← Bool.not_eq_true]
      intro passes
      have used : passing tables translated other = some text :=
        passing_eq_some.mpr ⟨same.symm ▸ known, passes⟩
      exact free text ⟨rfl, other, member, same, by rw [used]; rfl⟩
    · rintro refused _ ⟨rfl, other, member, same, passes⟩
      obtain ⟨own, passes⟩ := Option.isSome_iff_exists.mp passes
      obtain ⟨used, passes⟩ := passing_eq_some.mp passes
      rw [same, known, Option.some.injEq] at used
      rw [← used, refused other member same] at passes
      cases passes

/-- A run that answers ran the jobs there are. -/
theorem ran_jobs {memory : TranslationMemory} {translator : SegmentTranslator E}
    {plan : TranslationPlan} {jobs : List Job} {job : Job}
    (made : plan.toTranslate.mapM (Translation.job tables glossary provider plan.targetLanguage) =
      .ok jobs) (member : job ∈ jobs)
    (answer : (executePlan tables glossary provider memory translator plan).outcome.isOk = true) :
    plan.notRequired = false ∧ (sent memory translator plan jobs).raised = none := by
  obtain ⟨outcome, answered⟩ : ∃ outcome,
      (executePlan tables glossary provider memory translator plan).outcome = .ok outcome := by
    cases answered : (executePlan tables glossary provider memory translator plan).outcome with
    | error e =>
      rw [answered] at answer
      cases answer
    | ok outcome => exact ⟨outcome, rfl⟩
  rcases executePlan_eq_ok answered with ⟨idle, _⟩ | ⟨others, required, same, clean, _⟩
  · have none : plan.toTranslate = [] := by
      unfold TranslationPlan.notRequired at idle
      simp only [Bool.and_eq_true, List.all_eq_true, decide_eq_true_eq] at idle
      rw [TranslationPlan.toTranslate, List.filter_eq_nil_iff]
      intro planned listed
      simp [idle.2 planned listed]
    rw [none] at made
    cases made
    cases member
  · rw [made, Except.ok.injEq] at same
    subst same
    exact ⟨required, clean⟩

/-- For every memory, plan and provider: a segment whose translation fails the check is sent again by
the next run of the plan exactly when the memory had nothing under its key, no segment of the plan
with this key accepts the translation, and the first of them has the same masked text. -/
theorem failed_segment_retried_iff {memory : TranslationMemory} {translator later : SegmentTranslator E}
    {plan : TranslationPlan} {jobs : List Job} {failed : Job} {text : Text}
    (made : plan.toTranslate.mapM (job tables glossary provider plan.targetLanguage) = .ok jobs)
    (member : failed ∈ jobs)
    (answer : (executePlan tables glossary provider memory translator plan).outcome.isOk = true)
    (fails : Fails tables (sent memory translator plan jobs) failed text)
    (next : (executePlan tables glossary provider
      (executePlan tables glossary provider memory translator plan).memory later plan).outcome.isOk =
        true) :
    (executePlan tables glossary provider
      (executePlan tables glossary provider memory translator plan).memory later plan).Sends failed ↔
      memory.text? failed.key = none ∧
        (∀ other ∈ jobs, other.key = failed.key →
          (validatePreservation tables other.masked text).ok = false) ∧
        Leads jobs failed := by
  obtain ⟨required, clean⟩ := ran_jobs made member answer
  rw [executePlan_jobs required made clean] at next ⊢
  obtain ⟨_, cleanAgain⟩ := ran_jobs made member next
  rw [executePlan_jobs required made cleanAgain, ← and_assoc, ← text?_stored_eq_none fails.1]
  exact sends_iff (jobs_spec made) member cleanAgain

end Retry

namespace Sample

/-- A digest that tells all texts apart. -/
def digests : Tables :=
  { tables with sha256Hex := fun bytes => .ofList (bytes.map fun b => Char.ofNat b.toNat) }

def segment (tokens : List Token) : Segment where
  index := 0
  kind := .text
  block := "p".toList
  lang := none
  tokens := tokens

/-- `3 von 5`. -/
def counted : Segment := segment [⟨.text, "3 von 5".toList, [], false⟩]

/-- `<b> von </b>`, which is masked to the same text. -/
def marked : Segment :=
  segment [⟨.tag, "<b>".toList, "b".toList, false⟩, ⟨.text, " von ".toList, [], false⟩,
    ⟨.tag, "</b>".toList, "b".toList, true⟩]

/-- A German article of one paragraph. -/
def article (segment : Segment) : TranslationPlan where
  articleLanguage := ⟨some "de", false⟩
  fields := [⟨.body, ⟨[.raw "<p>".toList, .slot 0, .raw "</p>".toList], [segment], none, false⟩,
    [⟨.body, segment, ⟨some "de", false⟩, .translate⟩]⟩]
  untranslatedContent := false
  targetLanguage := targetLanguage

def glossary : Glossary := ⟨"1", []⟩

def provider : ProviderIdentity := ⟨"p", "m"⟩

def turned : Text := "<x id=\"2\"/> z <x id=\"1\"/>".toList

/-- The provider that turns every phrase round. -/
def turns : SegmentTranslator Empty := fun texts _ _ => .ok (texts.map fun _ => turned)

def run (memory : TranslationMemory) (segment : Segment) : PlanRun Empty :=
  executePlan digests glossary provider memory turns (article segment)

/-- The job of the article. -/
def made (segment : Segment) : Job where
  planned := ⟨.body, segment, ⟨some "de", false⟩, .translate⟩
  masked := maskSegment digests segment []
  key := ((translationMemoryKey digests "de" "uk"
    (normalizedSegmentHash digests (maskSegment digests segment []).text) "p" "m" "1").toOption).getD ""
  segmentHash := normalizedSegmentHash digests (maskSegment digests segment []).text

theorem made_eq (segment : Segment) :
    (article segment).toTranslate.mapM (job digests glossary provider (article segment).targetLanguage) =
      .ok [made segment] := rfl

/-- With the turned text in the memory, the marked segment fails and nothing is sent. -/
theorem blocked_of_known {memory : TranslationMemory}
    (known : memory.text? (made marked).key = some turned) :
    Fails digests (sent memory turns (article marked) [made marked]) (made marked) turned ∧
      (run memory marked).outcome.isOk = true ∧
      ¬(run (run memory marked).memory marked).Sends (made marked) := by
  have all : ∀ job ∈ [made marked], (memory.text? job.key).isSome = true := by
    intro job listed
    rw [List.mem_singleton.mp listed, known]
    rfl
  have idle : run memory marked =
      ⟨runOutcome digests memory (article marked) [made marked] ⟨[], memory.text?, false, none⟩,
        memory, []⟩ := executePlan_of_known turns (by decide) (made_eq marked) all
  have refused : (validatePreservation digests (made marked).masked turned).ok = false := by
    decide +kernel
  refine ⟨⟨translated_of_known known, refused⟩, ?_, ?_⟩
  · rw [idle]
    exact isOk_runOutcome List.mem_cons_self ⟨known, refused⟩
  · rw [idle]
    simp only
    rw [idle]
    rintro ⟨call, sent, _⟩
    cases sent

end Sample

/-- Nothing else has the key, so the refused segment is sent again. -/
theorem failed_segment_retried_alone :
    (Sample.run (Sample.run ∅ Sample.marked).memory Sample.marked).Sends (Sample.made Sample.marked) := by
  have member : Sample.made Sample.marked ∈ [Sample.made Sample.marked] := List.mem_cons_self
  have answered : (executePlan Sample.digests Sample.glossary Sample.provider ∅ Sample.turns
      (Sample.article Sample.marked)).outcome.isOk = true := by decide +kernel
  have next : (executePlan Sample.digests Sample.glossary Sample.provider
      (executePlan Sample.digests Sample.glossary Sample.provider ∅ Sample.turns
        (Sample.article Sample.marked)).memory Sample.turns
      (Sample.article Sample.marked)).outcome.isOk = true := by decide +kernel
  have fails : Fails Sample.digests (sent ∅ Sample.turns (Sample.article Sample.marked)
      [Sample.made Sample.marked]) (Sample.made Sample.marked) Sample.turned :=
    ⟨by decide +kernel, by decide +kernel⟩
  have retried := failed_segment_retried_iff (Sample.made_eq Sample.marked) member answered fails next
  apply retried.mpr
  refine ⟨rfl, ?_, by simp [Leads]⟩
  intro other listed _
  rw [List.mem_singleton.mp listed]
  exact fails.2

/-- Two numbers may change places and two tags may not: the text of the first article is stored, fails
for the second one, and the next run of the second one does not send it. -/
theorem failed_segment_blocked :
    Fails Sample.digests (sent (Sample.run ∅ Sample.counted).memory Sample.turns
      (Sample.article Sample.marked) [Sample.made Sample.marked]) (Sample.made Sample.marked)
      Sample.turned ∧
    (Sample.run (Sample.run ∅ Sample.counted).memory Sample.marked).outcome.isOk = true ∧
    ¬(Sample.run (Sample.run (Sample.run ∅ Sample.counted).memory Sample.marked).memory
      Sample.marked).Sends (Sample.made Sample.marked) :=
  Sample.blocked_of_known (by decide +kernel)

end Collector.Translation
