import Collector.Translation.PlanRuns

/-!
A run returns fields only when every segment to be translated has a text that passed its own check.
Every such text is then in the memory, so a second run finds all of them there: it returns the same
fields and has nothing to send or to store.
-/

namespace Collector.Translation
open Collector.Lib

variable {E : Type} {tables : Tables} {glossary : Glossary} {provider : ProviderIdentity}

def TranslationOutcome.fields (outcome : TranslationOutcome) : List (Option Text) :=
  [outcome.title, outcome.lead, outcome.bodyHtml]

/-- Some field was returned. -/
def TranslationOutcome.returnsFields (outcome : TranslationOutcome) : Bool :=
  outcome.fields.any Option.isSome

/-- The fields are put together from texts that passed the check for their own segments; no segment
was unsupported and every call was answered in full. -/
structure Whole (tables : Tables) (glossary : Glossary) (provider : ProviderIdentity)
    (translator : SegmentTranslator E) (plan : TranslationPlan) (run : PlanRun E)
    (outcome : TranslationOutcome) : Prop where
  supported : ∀ planned ∈ plan.segments, planned.action ≠ .unsupported
  answered : ∀ call ∈ run.calls, Answered translator plan.targetLanguage call
  placed : ∃ (finals : Table Final.place) (assembled : List (ArticleField × Text)),
    (∀ planned ∈ plan.toTranslate, ∃ made text,
      JobOf tables glossary provider plan.targetLanguage planned made ∧
      (validatePreservation tables made.masked text).ok = true ∧
      finals.find? (planned.field, planned.segment.index) = some (placed tables made text)) ∧
    assemble tables finals plan = some assembled ∧
    outcome.fields = [(field assembled .title).map (unescape tables),
      (field assembled .lead).map (unescape tables), field assembled .body]

/-! ## The answer of a run -/

/-- As many final texts as jobs: all of them passed, and each has a place of its own. -/
theorem finals_spec {translated : String → Option Text} {jobs : List Job}
    (all : (finals tables translated jobs).rows.length = jobs.length) {job : Job} (member : job ∈ jobs) :
    ∃ text, passing tables translated job = some text ∧
      (finals tables translated jobs).find? (job.planned.field, job.planned.segment.index) =
        some (placed tables job text) := by
  have made : ∀ list : List Final, (Table.setMany (∅ : Table Final.place) list).rows.length ≤
      list.length := by
    intro list
    have bound := (∅ : Table Final.place).length_setMany list
    rwa [Table.rows_empty, List.length_nil, Nat.zero_add] at bound
  have few := made (jobs.filterMap fun job => (passing tables translated job).map (placed tables job))
  have most := List.length_filterMap_le
    (fun job => (passing tables translated job).map (placed tables job)) jobs
  unfold finals at all
  have every := List.filterMap_length_eq_length.mp (by omega :
    (jobs.filterMap fun job => (passing tables translated job).map (placed tables job)).length =
      jobs.length) job member
  rw [Option.isSome_map] at every
  obtain ⟨text, passes⟩ := Option.isSome_iff_exists.mp every
  have rows : (finals tables translated jobs).rows = (∅ : Table Final.place).rows ++
      jobs.filterMap fun job => (passing tables translated job).map (placed tables job) :=
    Table.rows_setMany (by rw [Table.rows_empty, List.length_nil]; omega)
  have listed : placed tables job text ∈ (finals tables translated jobs).rows := by
    rw [rows, Table.rows_empty, List.nil_append]
    exact List.mem_filterMap.mpr ⟨job, member, by rw [passes]; rfl⟩
  exact ⟨text, passes, Table.find?_of_mem _ listed⟩

theorem languageUnsupported_mem {plan : TranslationPlan} {sending : Sending E} {jobs : List Job} :
    .languageUnsupported ∈ runFlags tables plan sending jobs ↔
      ∃ planned ∈ plan.segments, planned.action = .unsupported := by
  unfold runFlags TranslationPlan.qualityFlags
  simp only [Finset.mem_union]
  constructor
  · rintro ((((flag | flag) | flag) | flag) | flag) <;> split at flag <;> simp_all
  · rintro ⟨planned, member, unsupported⟩
    refine .inl (.inl (.inl (.inl ?_)))
    rw [if_pos (List.any_eq_true.mpr ⟨planned, member, decide_eq_true unsupported⟩)]
    exact Finset.mem_singleton_self _

theorem providerTruncated_mem {plan : TranslationPlan} {sending : Sending E} {jobs : List Job} :
    .providerTruncated ∈ runFlags tables plan sending jobs ↔ sending.truncated = true := by
  unfold runFlags TranslationPlan.qualityFlags
  simp only [Finset.mem_union]
  constructor
  · rintro ((((flag | flag) | flag) | flag) | flag) <;> split at flag <;> simp_all
  · intro truncated
    refine .inl (.inr ?_)
    rw [if_pos truncated]
    exact Finset.mem_singleton_self _

/-- All the parts of a complete answer are there. -/
structure Completes (tables : Tables) (plan : TranslationPlan) (jobs : List Job) (sending : Sending E)
    (assembled : List (ArticleField × Text)) : Prop where
  all : (finals tables sending.translated jobs).rows.length = jobs.length
  supported : ∀ planned ∈ plan.segments, planned.action ≠ .unsupported
  whole : sending.truncated = false
  assembled : assemble tables (finals tables sending.translated jobs) plan = some assembled

/-- An answer is complete with the fields of its parts, or it has no fields. -/
theorem runOutcome_eq_ok {memory : TranslationMemory} {plan : TranslationPlan} {jobs : List Job}
    {sending : Sending E} {outcome : TranslationOutcome}
    (answer : runOutcome tables memory plan jobs sending = .ok outcome) :
    (outcome.complete = false ∧ outcome.returnsFields = false) ∨
      ∃ assembled, Completes tables plan jobs sending assembled ∧ outcome.complete = true ∧
        outcome.fields = [(field assembled .title).map (unescape tables),
          (field assembled .lead).map (unescape tables), field assembled .body] := by
  unfold runOutcome at answer
  simp only [ne_eq, languageUnsupported_mem, providerTruncated_mem] at answer
  split at answer
  · cases answer
    exact .inl ⟨rfl, rfl⟩
  · rename_i missing
    simp only [not_or, not_not, not_exists, not_and, Bool.not_eq_true] at missing
    split at answer
    · cases answer
    · rename_i assembled put
      cases answer
      exact .inr ⟨assembled, ⟨missing.1, missing.2.1, missing.2.2, put⟩, rfl, rfl⟩

theorem runOutcome_of_completes (memory : TranslationMemory) {plan : TranslationPlan} {jobs : List Job}
    {sending : Sending E} {assembled : List (ArticleField × Text)}
    (completes : Completes tables plan jobs sending assembled) :
    ∃ outcome, runOutcome tables memory plan jobs sending = .ok outcome ∧ outcome.complete = true ∧
      outcome.fields = [(field assembled .title).map (unescape tables),
        (field assembled .lead).map (unescape tables), field assembled .body] := by
  unfold runOutcome
  simp only [ne_eq, languageUnsupported_mem, providerTruncated_mem]
  rw [if_neg, completes.assembled]
  · exact ⟨_, rfl, rfl, rfl⟩
  · rintro (missing | ⟨planned, member, unsupported⟩ | truncated)
    · exact missing completes.all
    · exact completes.supported planned member unsupported
    · rw [completes.whole] at truncated
      cases truncated

/-- A run that answers was not required, or it ran all its jobs. -/
theorem executePlan_eq_ok {memory : TranslationMemory} {translator : SegmentTranslator E}
    {plan : TranslationPlan} {outcome : TranslationOutcome}
    (answer : (executePlan tables glossary provider memory translator plan).outcome = .ok outcome) :
    (plan.notRequired = true ∧ outcome.returnsFields = false) ∨
      ∃ jobs, plan.notRequired = false ∧
        plan.toTranslate.mapM (job tables glossary provider plan.targetLanguage) = .ok jobs ∧
        (sent memory translator plan jobs).raised = none ∧
        runOutcome tables memory plan jobs (sent memory translator plan jobs) = .ok outcome := by
  unfold executePlan at answer
  split at answer
  · rename_i idle
    cases answer
    exact .inl ⟨idle, rfl⟩
  · rename_i required
    rw [Bool.not_eq_true] at required
    split at answer
    · cases answer
    · rename_i jobs made
      unfold executeJobs at answer
      simp only at answer
      split at answer
      · cases answer
      · rename_i clean
        exact .inr ⟨jobs, required, made, clean, answer⟩

/-- What a run does with its jobs, unless the provider raises. -/
theorem executePlan_jobs {memory : TranslationMemory} {translator : SegmentTranslator E}
    {plan : TranslationPlan} {jobs : List Job} (required : plan.notRequired = false)
    (made : plan.toTranslate.mapM (job tables glossary provider plan.targetLanguage) = .ok jobs)
    (clean : (sent memory translator plan jobs).raised = none) :
    executePlan tables glossary provider memory translator plan =
      ⟨runOutcome tables memory plan jobs (sent memory translator plan jobs),
        stored tables glossary provider memory plan.targetLanguage
          (sent memory translator plan jobs).translated jobs,
        (sent memory translator plan jobs).calls⟩ := by
  unfold executePlan executeJobs
  rw [if_neg (by simp [required]), made]
  simp only
  rw [← sent, clean]
  rfl

/-- The memory of a run holds what it held and what passed for some job. -/
theorem mem_memory {memory : TranslationMemory} {translator : SegmentTranslator E}
    {plan : TranslationPlan} {made : MemoryEntry}
    (member : made ∈ (executePlan tables glossary provider memory translator plan).memory.rows) :
    made ∈ memory.rows ∨ ∃ planned ∈ plan.toTranslate, ∃ own,
      JobOf tables glossary provider plan.targetLanguage planned own ∧ own.key = made.key ∧
        (validatePreservation tables own.masked made.translatedText).ok = true := by
  unfold executePlan executeJobs at member
  simp only at member
  split at member
  · exact .inl member
  · split at member
    · exact .inl member
    · rename_i jobs run
      split at member
      · exact .inl member
      · rcases Table.mem_insertMany member with new | old
        · obtain ⟨own, inside, _, passes, same⟩ := mem_newEntries new
          obtain ⟨planned, listed, of⟩ := forall₂_of_mem_right (jobs_spec run) inside
          exact .inr ⟨planned, listed, own, of, same.symm, (passing_eq_some.mp passes).2⟩
        · exact .inl old

/-! ## The second run -/

theorem pendingJobs_eq_nil {memory : TranslationMemory} {jobs : List Job}
    (known : ∀ job ∈ jobs, (memory.text? job.key).isSome = true) : pendingJobs memory jobs = [] := by
  have none : jobs.filter (fun job => (memory.text? job.key).isNone) = [] := by
    rw [List.filter_eq_nil_iff]
    intro job member
    simp [Option.isNone_eq_false_iff.mpr (known job member)]
  unfold pendingJobs
  rw [none]
  rfl

theorem stored_of_known {memory : TranslationMemory} {target : String}
    {translated : String → Option Text} {jobs : List Job}
    (known : ∀ job ∈ jobs, (memory.text? job.key).isSome = true) :
    stored tables glossary provider memory target translated jobs = memory := by
  have none : jobs.filter (fun job => (memory.text? job.key).isNone) = [] := by
    rw [List.filter_eq_nil_iff]
    intro job member
    simp [Option.isNone_eq_false_iff.mpr (known job member)]
  unfold stored newEntries
  rw [none]
  rfl

/-- A run whose texts are all in the memory sends nothing and adds nothing. -/
theorem executePlan_of_known {memory : TranslationMemory} {plan : TranslationPlan} {jobs : List Job}
    (later : SegmentTranslator E) (required : plan.notRequired = false)
    (made : plan.toTranslate.mapM (job tables glossary provider plan.targetLanguage) = .ok jobs)
    (known : ∀ job ∈ jobs, (memory.text? job.key).isSome = true) :
    executePlan tables glossary provider memory later plan =
      ⟨runOutcome tables memory plan jobs ⟨[], memory.text?, false, none⟩, memory, []⟩ := by
  have nothing : sent memory later plan jobs = ⟨[], memory.text?, false, none⟩ := by
    rw [sent, pendingJobs_eq_nil known]
    rfl
  rw [executePlan_jobs required made (by rw [nothing]), stored_of_known known, nothing]

theorem finals_congr {translated again : String → Option Text} {jobs : List Job}
    (same : ∀ job ∈ jobs, again job.key = translated job.key) :
    finals tables again jobs = finals tables translated jobs := by
  unfold finals
  congr 1
  apply List.filterMap_congr
  intro job member
  simp only [passing, same job member]

/-- The texts that a complete run used are in the memory it leaves. -/
theorem text?_after {memory : TranslationMemory} {translator : SegmentTranslator E}
    {plan : TranslationPlan} {jobs : List Job} {assembled : List (ArticleField × Text)}
    (completes : Completes tables plan jobs (sent memory translator plan jobs) assembled) {job : Job}
    (member : job ∈ jobs) :
    ((stored tables glossary provider memory plan.targetLanguage
        (sent memory translator plan jobs).translated jobs).text? job.key).isSome = true ∧
      (stored tables glossary provider memory plan.targetLanguage
        (sent memory translator plan jobs).translated jobs).text? job.key =
        (sent memory translator plan jobs).translated job.key := by
  obtain ⟨text, passes, _⟩ := finals_spec completes.all member
  have used := (passing_eq_some.mp passes).1
  have found : (stored tables glossary provider memory plan.targetLanguage
      (sent memory translator plan jobs).translated jobs).text? job.key = some text := by
    cases known : memory.text? job.key with
    | some old =>
      rw [text?_stored_of_some known, ← used]
      exact (translated_of_known known).symm
    | none => exact (text?_stored_of_none known).mpr ⟨used, job, member, rfl, by rw [passes]; rfl⟩
  rw [found, used]
  exact ⟨rfl, rfl⟩

/-- A run after a complete one, with whatever provider. -/
theorem executePlan_again {memory : TranslationMemory} {translator later : SegmentTranslator E}
    {plan : TranslationPlan} {outcome : TranslationOutcome}
    (answer : (executePlan tables glossary provider memory translator plan).outcome = .ok outcome)
    (complete : outcome.complete = true) :
    ∃ again, again.complete = true ∧ again.fields = outcome.fields ∧
      executePlan tables glossary provider
          (executePlan tables glossary provider memory translator plan).memory later plan =
        ⟨.ok again, (executePlan tables glossary provider memory translator plan).memory, []⟩ := by
  by_cases idle : plan.notRequired = true
  · have once : ∀ (memory : TranslationMemory) (translator : SegmentTranslator E),
        executePlan tables glossary provider memory translator plan =
          ⟨.ok { notRequired := true, complete := true, qualityFlags := plan.qualityFlags },
            memory, []⟩ := by
      intro memory translator
      rw [executePlan, if_pos idle]
    rw [once] at answer ⊢
    cases answer
    exact ⟨_, rfl, rfl, rfl⟩
  · rcases executePlan_eq_ok answer with ⟨notRequired, _⟩ | ⟨jobs, required, made, clean, whole⟩
    · exact absurd notRequired idle
    rw [executePlan_jobs required made clean]
    rcases runOutcome_eq_ok whole with ⟨partly, _⟩ | ⟨assembled, completes, _, fields⟩
    · rw [complete] at partly
      cases partly
    set after := stored tables glossary provider memory plan.targetLanguage
      (sent memory translator plan jobs).translated jobs with left
    have known : ∀ job ∈ jobs, (after.text? job.key).isSome = true := fun job member =>
      (text?_after completes member).1
    have same : finals tables after.text? jobs =
        finals tables (sent memory translator plan jobs).translated jobs :=
      finals_congr fun job member => (text?_after completes member).2
    have completesAgain : Completes (E := E) tables plan jobs ⟨[], after.text?, false, none⟩ assembled :=
      ⟨same ▸ completes.all, completes.supported, rfl, same ▸ completes.assembled⟩
    obtain ⟨again, answered, completeAgain, fieldsAgain⟩ :=
      runOutcome_of_completes after completesAgain
    refine ⟨again, completeAgain, fieldsAgain.trans fields.symm, ?_⟩
    rw [executePlan_of_known later required made known, answered]

/-- For every plan, memory and provider: fields are returned only when they are put together from
texts that passed the check for their own segments; what a run adds to the memory passed the check
for some segment of its key; and after a complete run, a run of the same plan returns the same
fields, sends nothing and leaves the memory as it is. -/
theorem translation_all_or_nothing (tables : Tables) (glossary : Glossary)
    (provider : ProviderIdentity) (memory : TranslationMemory) (translator : SegmentTranslator E)
    (plan : TranslationPlan) :
    let run := executePlan tables glossary provider memory translator plan
    (∀ outcome, run.outcome = .ok outcome → outcome.returnsFields = true →
      Whole tables glossary provider translator plan run outcome) ∧
    (∀ made ∈ run.memory.rows, made ∈ memory.rows ∨ ∃ planned ∈ plan.toTranslate, ∃ own,
      JobOf tables glossary provider plan.targetLanguage planned own ∧ own.key = made.key ∧
        (validatePreservation tables own.masked made.translatedText).ok = true) ∧
    (∀ outcome, run.outcome = .ok outcome → outcome.complete = true →
      ∀ later : SegmentTranslator E, ∃ again, again.complete = true ∧ again.fields = outcome.fields ∧
        executePlan tables glossary provider run.memory later plan = ⟨.ok again, run.memory, []⟩) := by
  intro run
  refine ⟨?_, fun made member => mem_memory member, fun outcome answer complete later =>
    executePlan_again answer complete⟩
  intro outcome answer returns
  rcases executePlan_eq_ok answer with ⟨_, none⟩ | ⟨jobs, required, made, clean, whole⟩
  · rw [returns] at none
    cases none
  rcases runOutcome_eq_ok whole with ⟨_, none⟩ | ⟨assembled, completes, _, fields⟩
  · rw [returns] at none
    cases none
  have shape := executePlan_jobs required made clean
  refine ⟨completes.supported, ?_, ?_⟩
  · intro call member
    have calls : call ∈ (sent memory translator plan jobs).calls := by
      change call ∈ (executePlan tables glossary provider memory translator plan).calls at member
      rw [shape] at member
      exact member
    rcases answered_sendBatches ⟨clean, completes.whole⟩ calls with before | answered
    · cases before
    · exact answered
  · refine ⟨_, assembled, ?_, completes.assembled, fields⟩
    intro planned member
    obtain ⟨own, inside, of⟩ := exists_job (jobs_spec made) member
    obtain ⟨text, passes, found⟩ := finals_spec completes.all inside
    rw [of.segment] at found
    exact ⟨own, text, of, (passing_eq_some.mp passes).2, found⟩

end Collector.Translation
