import Collector.Lib.Machine
import Collector.Lib.Pairing
import Collector.Translation.Pipeline

/-!
What one run of a plan does: which jobs it has, what it sends, which translations it knows at the
end, and what it leaves in the memory. A translation of a key comes from the memory or, for a key
that the memory does not know, from the provider.
-/

namespace Collector.Translation
open Collector.Lib
open Collector.Contracts (CanonicalEncodingError)

variable {E : Type} {tables : Tables} {glossary : Glossary} {provider : ProviderIdentity}

/-! ## Jobs -/

/-- A job is made for its segment. -/
structure JobOf (tables : Tables) (glossary : Glossary) (provider : ProviderIdentity) (target : String)
    (planned : PlannedSegment) (made : Job) : Prop where
  run : job tables glossary provider target planned = .ok made
  segment : made.planned = planned
  masked : made.masked =
    maskSegment tables planned.segment (glossary.entriesFor planned.sourceLanguage)

theorem job_spec {target : String} {planned : PlannedSegment} {made : Job}
    (run : job tables glossary provider target planned = .ok made) :
    JobOf tables glossary provider target planned made := by
  have whole := run
  obtain ⟨key, _, run⟩ := Except.bind_eq_ok.mp run
  cases run
  exact ⟨whole, rfl, rfl⟩

/-- The jobs are those of the segments, in their order. -/
theorem jobs_spec {target : String} {segments : List PlannedSegment} {jobs : List Job}
    (run : segments.mapM (job tables glossary provider target) = .ok jobs) :
    List.Forall₂ (JobOf tables glossary provider target) segments jobs := by
  induction segments generalizing jobs with
  | nil =>
    cases run
    exact .nil
  | cons planned segments ih =>
    rw [List.mapM_cons] at run
    obtain ⟨made, first, run⟩ := Except.bind_eq_ok.mp run
    obtain ⟨others, rest, run⟩ := Except.bind_eq_ok.mp run
    cases run
    exact .cons (job_spec first) (ih rest)

theorem exists_job {target : String} {segments : List PlannedSegment} {jobs : List Job}
    (each : List.Forall₂ (JobOf tables glossary provider target) segments jobs)
    {planned : PlannedSegment} (member : planned ∈ segments) :
    ∃ made ∈ jobs, JobOf tables glossary provider target planned made :=
  forall₂_of_mem_right (List.Forall₂.flip each) member

/-! ## Sending -/

/-- The keys that are waiting for the provider. -/
def pendingKeys (pending : List (String × List Job)) : List String :=
  pending.flatMap fun entry => entry.2.map Job.key

theorem update_of_not_mem {translated : String → Option Text} {keys : List String}
    {results : List Text} {key : String} (absent : key ∉ keys) :
    update translated keys results key = translated key := by
  unfold update
  induction keys generalizing translated results with
  | nil => rfl
  | cons first keys ih =>
    rw [List.mem_cons, not_or] at absent
    cases results with
    | nil => rfl
    | cons text results =>
      rw [List.zip_cons_cons, List.foldl_cons, ih absent.2]
      exact Function.update_of_ne absent.1 _ _

/-- Sending leaves the translations of other keys alone. -/
theorem sendBatches_frame {translator : SegmentTranslator E} {target : String}
    {pending : List (String × List Job)} {sending : Sending E} {key : String}
    (absent : key ∉ pendingKeys pending) :
    (sendBatches translator target pending sending).translated key = sending.translated key := by
  induction pending generalizing sending with
  | nil => rfl
  | cons entry pending ih =>
    obtain ⟨language, batch⟩ := entry
    rw [pendingKeys, List.flatMap_cons, List.mem_append, not_or] at absent
    simp only [sendBatches]
    split
    · rfl
    · split
      · exact ih absent.2
      · rw [ih absent.2]
        exact update_of_not_mem absent.1

/-- The provider answered a call with as many texts as it got. -/
def Answered (translator : SegmentTranslator E) (target : String) (call : Call) : Prop :=
  ∃ results, translator call.texts call.sourceLanguage target = .ok results ∧
    results.length = call.texts.length

def Sending.Clean (sending : Sending E) : Prop := sending.raised = none ∧ sending.truncated = false

/-- Truncation is never forgotten. -/
theorem sendBatches_truncated {translator : SegmentTranslator E} {target : String}
    {pending : List (String × List Job)} {sending : Sending E} (truncated : sending.truncated = true) :
    (sendBatches translator target pending sending).truncated = true := by
  induction pending generalizing sending with
  | nil => exact truncated
  | cons entry pending ih =>
    simp only [sendBatches]
    split
    · exact truncated
    · split
      · exact ih rfl
      · exact ih truncated

/-- Unless it stops on an exception, the loop sends every batch once, in their order. -/
theorem calls_sendBatches {translator : SegmentTranslator E} {target : String}
    {pending : List (String × List Job)} {sending : Sending E}
    (finished : (sendBatches translator target pending sending).raised = none) :
    (sendBatches translator target pending sending).calls = sending.calls ++
      pending.map fun entry => ⟨entry.2.map fun job => job.masked.text, entry.1⟩ := by
  induction pending generalizing sending with
  | nil => exact (List.append_nil _).symm
  | cons entry pending ih =>
    obtain ⟨language, batch⟩ := entry
    simp only [sendBatches] at finished ⊢
    split at finished
    · cases finished
    · split at finished <;> rename_i size
      · rw [if_pos size, ih finished]
        simp
      · rw [if_neg size, ih finished]
        simp

theorem answered_sendBatches {translator : SegmentTranslator E} {target : String}
    {pending : List (String × List Job)} {sending : Sending E}
    (clean : (sendBatches translator target pending sending).Clean) {call : Call}
    (sent : call ∈ (sendBatches translator target pending sending).calls) :
    call ∈ sending.calls ∨ Answered translator target call := by
  induction pending generalizing sending with
  | nil => exact .inl sent
  | cons entry pending ih =>
    obtain ⟨language, batch⟩ := entry
    simp only [sendBatches] at clean sent
    cases answer : translator (batch.map fun job => job.masked.text) language target with
    | error e =>
      simp only [answer] at clean
      cases clean.1
    | ok results =>
      simp only [answer] at clean sent
      split at clean <;> rename_i size
      · rw [Sending.Clean, sendBatches_truncated rfl] at clean
        cases clean.2
      · rw [if_neg size] at sent
        rcases ih clean sent with before | now
        · rw [List.mem_append, List.mem_singleton] at before
          rcases before with before | rfl
          · exact .inl before
          · exact .inr ⟨results, answer, not_not.mp size⟩
        · exact .inr now

/-! ## What is known at the end -/

/-- The state in which the sending of a run ends. -/
def sent (memory : TranslationMemory) (translator : SegmentTranslator E) (plan : TranslationPlan)
    (jobs : List Job) : Sending E :=
  sendBatches translator plan.targetLanguage (pendingJobs memory jobs) ⟨[], memory.text?, false, none⟩

/-- What waits for the provider is the first job of its language and key, if the memory does not know
the key. -/
theorem mem_pendingJobs {memory : TranslationMemory} {jobs : List Job} {language : String} {job : Job} :
    (∃ batch, (language, batch) ∈ pendingJobs memory jobs ∧ job ∈ batch) ↔
      job.language = language ∧ memory.text? job.key = none ∧
        jobs.find? (fun other => decide (other.slot = job.slot)) = some job := by
  have first (unknown : memory.text? job.key = none) :
      (jobs.filter fun job => (memory.text? job.key).isNone).find?
        (fun other => decide (other.slot = job.slot)) =
      jobs.find? (fun other => decide (other.slot = job.slot)) := by
    rw [List.find?_filter]
    congr
    funext other
    by_cases same : other.slot = job.slot
    · have key : other.key = job.key := congrArg Prod.snd same
      simp [key, unknown]
    · simp [same]
  simp only [pendingJobs, List.mem_map, Prod.mk.injEq]
  constructor
  · rintro ⟨batch, ⟨_, _, rfl, rfl⟩, member⟩
    obtain ⟨listed, language⟩ := List.mem_filter.mp member
    rw [Table.mem_insertMany_empty] at listed
    have unknown : memory.text? job.key = none := by
      simpa using (List.mem_filter.mp (List.mem_of_find?_eq_some listed)).2
    exact ⟨of_decide_eq_true language, unknown, first unknown ▸ listed⟩
  · rintro ⟨language, unknown, leads⟩
    rw [← first unknown] at leads
    have listed := List.mem_of_find?_eq_some leads
    refine ⟨_, ⟨job.language, ?_, language, rfl⟩, List.mem_filter.mpr ⟨?_, decide_eq_true rfl⟩⟩
    · rw [Table.mem_insertMany_empty]
      cases found : (List.map Job.language _).find? _ with
      | none =>
        have none := List.find?_eq_none.mp found _ (List.mem_map_of_mem listed)
        simp [language] at none
      | some other =>
        have same := List.find?_some found
        simp only [id, decide_eq_true_eq] at same
        rw [same]
    · exact Table.mem_insertMany_empty.mpr leads

/-- Only keys that the memory does not know wait for the provider. -/
theorem text?_of_pending {memory : TranslationMemory} {jobs : List Job} {key : String}
    (waiting : key ∈ pendingKeys (pendingJobs memory jobs)) : memory.text? key = none := by
  obtain ⟨⟨language, batch⟩, inside, member⟩ := List.mem_flatMap.mp waiting
  obtain ⟨job, listed, rfl⟩ := List.mem_map.mp member
  exact (mem_pendingJobs.mp ⟨batch, inside, listed⟩).2.1

/-- A text of the memory is not translated again. -/
theorem translated_of_known {memory : TranslationMemory} {translator : SegmentTranslator E}
    {plan : TranslationPlan} {jobs : List Job} {key : String} {text : Text}
    (known : memory.text? key = some text) :
    (sent memory translator plan jobs).translated key = some text := by
  have absent : key ∉ pendingKeys (pendingJobs memory jobs) := by
    intro waiting
    rw [text?_of_pending waiting] at known
    cases known
  exact (sendBatches_frame absent).trans known

/-! ## What is left in the memory -/

theorem passing_eq_some {translated : String → Option Text} {job : Job} {text : Text} :
    passing tables translated job = some text ↔ translated job.key = some text ∧
      (validatePreservation tables job.masked text).ok = true := by
  unfold passing
  rw [Option.filter_eq_some_iff]

/-- The jobs whose translations are new. -/
theorem mem_newEntries {memory : TranslationMemory} {target : String}
    {translated : String → Option Text} {jobs : List Job} {made : MemoryEntry}
    (member : made ∈ (newEntries tables glossary provider memory target translated jobs).rows) :
    ∃ job ∈ jobs, memory.text? job.key = none ∧
      passing tables translated job = some made.translatedText ∧ made.key = job.key := by
  rcases Table.mem_setMany member with listed | none
  · obtain ⟨job, unknown, made'⟩ := List.mem_filterMap.mp listed
    obtain ⟨text, passes, rfl⟩ := Option.map_eq_some_iff.mp made'
    obtain ⟨inside, absent⟩ := List.mem_filter.mp unknown
    exact ⟨job, inside, by simpa using absent, passes, rfl⟩
  · cases none

/-- The new text of a key is the one that the run knows for it, if it passes for some job. -/
theorem text?_newEntries {memory : TranslationMemory} {target : String}
    {translated : String → Option Text} {jobs : List Job} {key : String} {text : Text}
    (unknown : memory.text? key = none) :
    ((newEntries tables glossary provider memory target translated jobs).find? key).map
        MemoryEntry.translatedText = some text ↔
      translated key = some text ∧
        ∃ job ∈ jobs, job.key = key ∧ (passing tables translated job).isSome = true := by
  constructor
  · intro found
    obtain ⟨made, under, rfl⟩ := Option.map_eq_some_iff.mp found
    obtain ⟨member, rfl⟩ := (Table.find?_eq_some _ _ _).mp under
    obtain ⟨job, inside, _, passes, same⟩ := mem_newEntries member
    refine ⟨?_, job, inside, same.symm, by rw [passes]; rfl⟩
    rw [same]
    exact (passing_eq_some.mp passes).1
  · rintro ⟨known, job, inside, rfl, passes⟩
    obtain ⟨own, passes⟩ := Option.isSome_iff_exists.mp passes
    have assigned : job.key ∈ ((jobs.filter fun job => (memory.text? job.key).isNone).filterMap
        fun job => (passing tables translated job).map (entry glossary provider target job)).map
          MemoryEntry.key := by
      refine List.mem_map.mpr ⟨entry glossary provider target job own, ?_, rfl⟩
      refine List.mem_filterMap.mpr ⟨job, List.mem_filter.mpr ⟨inside, by simp [unknown]⟩, ?_⟩
      rw [passes]
      rfl
    obtain ⟨made, _, same, found⟩ := Table.find?_setMany ∅ assigned
    obtain ⟨member, _⟩ := (Table.find?_eq_some _ _ _).mp found
    obtain ⟨other, _, _, otherPasses, otherKey⟩ := mem_newEntries member
    change (Table.find? (Table.setMany ∅ _) job.key).map _ = _
    rw [found, Option.map_some]
    have text := (passing_eq_some.mp otherPasses).1
    rw [← otherKey, same, known] at text
    exact text.symm

/-- The memory after the entries of a run are put. -/
def stored (tables : Tables) (glossary : Glossary) (provider : ProviderIdentity)
    (memory : TranslationMemory) (target : String) (translated : String → Option Text)
    (jobs : List Job) : TranslationMemory :=
  memory.putMany (newEntries tables glossary provider memory target translated jobs).rows

theorem text?_stored {memory : TranslationMemory} {target : String}
    {translated : String → Option Text} {jobs : List Job} (key : String) :
    (stored tables glossary provider memory target translated jobs).text? key =
      (memory.text? key).or (((newEntries tables glossary provider memory target translated jobs).find?
        key).map MemoryEntry.translatedText) := by
  unfold stored TranslationMemory.putMany TranslationMemory.text?
  rw [Table.find?_insertMany]
  change ((memory.find? key).or (Table.find? _ key)).map _ = _
  cases memory.find? key <;> rfl

/-- A run never changes a text of the memory. -/
theorem text?_stored_of_some {memory : TranslationMemory} {target : String}
    {translated : String → Option Text} {jobs : List Job} {key : String} {text : Text}
    (known : memory.text? key = some text) :
    (stored tables glossary provider memory target translated jobs).text? key = some text := by
  rw [text?_stored, known, Option.some_or]

/-- A key that was free has the text that passed for some job. -/
theorem text?_stored_of_none {memory : TranslationMemory} {target : String}
    {translated : String → Option Text} {jobs : List Job} {key : String} {text : Text}
    (unknown : memory.text? key = none) :
    (stored tables glossary provider memory target translated jobs).text? key = some text ↔
      translated key = some text ∧
        ∃ job ∈ jobs, job.key = key ∧ (passing tables translated job).isSome = true := by
  rw [text?_stored, unknown, Option.none_or]
  exact text?_newEntries unknown

end Collector.Translation
