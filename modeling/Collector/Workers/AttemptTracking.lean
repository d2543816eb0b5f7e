import Collector.Workers.ActiveTasks

/-!
When the table of active tasks tracks attempts. `_active` is keyed by job id, so it does as long
as the claim loop never starts a job that an earlier attempt of the same process may still finish,
or that a heartbeat tick in flight may still abandon; and a deferred job that is claimed again
at once shows that this can happen.
-/

namespace Collector.Workers
open Collector.Lib Collector.Persistence

/-- The attempt may still come to the `finally` that removes an entry: it is not over, and no
cancellation is about to end its report. -/
def Attempt.Completes (a : Attempt) : Prop :=
  a.phase ≠ .ended ∧ (a.signalled = true → a.phase = .handling)

instance (a : Attempt) : Decidable a.Completes := inferInstanceAs (Decidable (_ ∧ _))

/-- What a claimed job must meet when it is started: no earlier attempt of it in the process may
still complete, and no tick in flight may still abandon it. -/
def Settled (s : Runtime) (job : Uuid) : Prop :=
  (∀ a ∈ s.attempts, a.job = job → ¬a.Completes) ∧ ∀ entry ∈ s.tick.pending, entry.job ≠ job

instance (s : Runtime) (job : Uuid) : Decidable (Settled s job) :=
  inferInstanceAs (Decidable (_ ∧ _))

/-- The jobs that the claim loop is about to start. -/
def Runtime.starting (s : Runtime) : Runtime.Event → List Uuid
  | .claimResume =>
    match s.claim with
    | .taken jobs => if s.fenced then [] else jobs
    | _ => []
  | _ => []

/-- The condition on a step: the claim loop starts settled jobs only. -/
def StartsSettled (s : Runtime) (event : Runtime.Event) : Prop :=
  ∀ job ∈ s.starting event, Settled s job

instance (s : Runtime) (event : Runtime.Event) : Decidable (StartsSettled s event) :=
  inferInstanceAs (Decidable (∀ job ∈ _, _))

/-- What the steps keep under that condition. -/
structure Sound (s : Runtime) : Prop extends Tracked s where
  listed : ∀ job e, s.active.find? job = some e → ∃ a, s.attempts[e.attempt]? = some a ∧
    a.job = job ∧ a.phase ≠ .ended ∧ a.cancelled = false
  single : ∀ (k l : Nat) (a b : Attempt), s.attempts[k]? = some a → s.attempts[l]? = some b →
    a.Completes → b.Completes → a.job = b.job → k = l
  marked : ∀ (k : Nat) (a : Attempt), s.attempts[k]? = some a → a.signalled = true → a.cancelled = true
  seen : ∀ old ∈ s.tick.pending, ∀ e, s.active.find? old.job = some e → e = old
  distinct : ∀ jobs, s.claim = .taken jobs → jobs.Nodup

namespace Sound
variable {s next : Runtime}

theorem initial (rows : Uuid → JobRow) : Sound (Runtime.initial rows) where
  own := by simp [Runtime.initial]
  entry := by simp [Runtime.initial]
  listed := by simp [Runtime.initial]
  single := by simp [Runtime.initial]
  marked := by simp [Runtime.initial]
  seen := by simp [Runtime.initial, TickState.pending]
  distinct := by simp [Runtime.initial]

/-- A step that touches neither attempts nor entries. -/
theorem congr (sound : Sound s) (attempts : next.attempts = s.attempts)
    (active : next.active = s.active) (removals : next.removals = s.removals)
    (pending : ∀ entry ∈ next.tick.pending, entry ∈ s.tick.pending)
    (distinct : ∀ jobs, next.claim = .taken jobs → jobs.Nodup) : Sound next where
  own := removals ▸ sound.own
  entry := attempts ▸ active ▸ sound.entry
  listed := attempts ▸ active ▸ sound.listed
  single := attempts ▸ sound.single
  marked := attempts ▸ sound.marked
  seen old member := active ▸ sound.seen old (pending old member)
  distinct := distinct

section Touch
variable {k : Nat} {a : Attempt} {f : Attempt → Attempt}

theorem getElem?_modify_of_ne {l : Nat} (different : k ≠ l) :
    (s.attempts.modify k f)[l]? = s.attempts[l]? := by
  simp [different]

theorem getElem?_modify_self (known : s.attempts[k]? = some a) :
    (s.attempts.modify k f)[k]? = some (f a) := by
  simp [known]

theorem getElem?_modify_cases {l : Nat} {b : Attempt} (known : s.attempts[k]? = some a)
    (found : (s.attempts.modify k f)[l]? = some b) :
    (k = l ∧ b = f a) ∨ (k ≠ l ∧ s.attempts[l]? = some b) := by
  by_cases same : k = l
  · subst same
    rw [getElem?_modify_self known] at found
    cases found
    exact .inl ⟨rfl, rfl⟩
  · rw [getElem?_modify_of_ne same] at found
    exact .inr ⟨same, found⟩

/-- An attempt that runs and was not cancelled may complete. -/
theorem completes (sound : Sound s) (known : s.attempts[k]? = some a) (runs : a.phase ≠ .ended)
    (free : a.cancelled = false) : a.Completes := by
  refine ⟨runs, fun signalled => ?_⟩
  rw [sound.marked k a known signalled] at free
  cases free

/-- A running attempt that goes on: another phase, or a swallowed cancellation. -/
theorem touch (sound : Sound s) (known : s.attempts[k]? = some a) (runs : a.phase ≠ .ended)
    (job : (f a).job = a.job) (goes : (f a).phase ≠ .ended) (cancelled : (f a).cancelled = a.cancelled)
    (marks : (f a).signalled = true → a.signalled = true) (ends : (f a).Completes → a.Completes) :
    Sound { s with attempts := s.attempts.modify k f } where
  own := sound.own
  entry := by
    intro l b found running free
    rcases getElem?_modify_cases known found with ⟨rfl, rfl⟩ | ⟨_, found⟩
    · rw [job]
      exact sound.entry k a known runs (cancelled ▸ free)
    · exact sound.entry l b found running free
  listed := by
    intro i e found
    obtain ⟨b, there, facts⟩ := sound.listed i e found
    by_cases same : k = e.attempt
    · subst same
      rw [known] at there
      cases there
      exact ⟨f a, getElem?_modify_self known, job.trans facts.1, goes, cancelled.trans facts.2.2⟩
    · exact ⟨b, (getElem?_modify_of_ne same).trans there, facts⟩
  single := by
    intro i l b c first second runB runC same
    rcases getElem?_modify_cases known first with ⟨rfl, rfl⟩ | ⟨_, first⟩
    · rcases getElem?_modify_cases known second with ⟨rfl, _⟩ | ⟨_, second⟩
      · rfl
      · exact sound.single k l a c known second (ends runB) runC (job.symm.trans same)
    · rcases getElem?_modify_cases known second with ⟨rfl, rfl⟩ | ⟨_, second⟩
      · exact sound.single i k b a first known runB (ends runC) (same.trans job)
      · exact sound.single i l b c first second runB runC same
  marked := by
    intro l b found signalled
    rcases getElem?_modify_cases known found with ⟨rfl, rfl⟩ | ⟨_, found⟩
    · rw [cancelled]
      exact sound.marked k a known (marks signalled)
    · exact sound.marked l b found signalled
  seen := sound.seen
  distinct := sound.distinct

/-- A cancelled attempt that is over has no entry to leave behind. -/
theorem unwind (sound : Sound s) (known : s.attempts[k]? = some a) (signalled : a.signalled = true) :
    Sound (s.setPhase k .ended) where
  own := sound.own
  entry := by
    intro l b found running free
    rcases getElem?_modify_cases known found with ⟨rfl, rfl⟩ | ⟨_, found⟩
    · exact absurd rfl running
    · exact sound.entry l b found running free
  listed := by
    intro i e found
    obtain ⟨b, there, facts⟩ := sound.listed i e found
    refine ⟨b, (getElem?_modify_of_ne ?_).trans there, facts⟩
    rintro rfl
    rw [known] at there
    cases there
    rw [sound.marked e.attempt a known signalled] at facts
    cases facts.2.2
  single := by
    intro i l b c first second runB runC same
    rcases getElem?_modify_cases known first with ⟨rfl, rfl⟩ | ⟨_, first⟩
    · exact absurd rfl runB.1
    rcases getElem?_modify_cases known second with ⟨rfl, rfl⟩ | ⟨_, second⟩
    · exact absurd rfl runC.1
    · exact sound.single i l b c first second runB runC same
  marked := by
    intro l b found marks
    rcases getElem?_modify_cases known found with ⟨rfl, rfl⟩ | ⟨_, found⟩
    · exact sound.marked k a known signalled
    · exact sound.marked l b found marks
  seen := sound.seen
  distinct := sound.distinct

end Touch

theorem find?_delete_job {i job : Uuid} {e : ActiveEntry} {t : Table ActiveEntry.job}
    (found : (t.delete fun e => e.job = job).find? i = some e) : i ≠ job ∧ t.find? i = some e := by
  rw [Table.find?_delete, Option.filter_eq_some_iff] at found
  obtain ⟨found, kept⟩ := found
  refine ⟨?_, found⟩
  rintro rfl
  obtain ⟨_, key⟩ := (Table.find?_eq_some _ _ _).mp found
  simp [key] at kept

theorem find?_delete_other {i job : Uuid} {t : Table ActiveEntry.job} (other : i ≠ job) :
    (t.delete fun e => e.job = job).find? i = t.find? i := by
  rw [Table.find?_delete]
  cases found : t.find? i with
  | none => rfl
  | some e =>
    obtain ⟨_, key⟩ := (Table.find?_eq_some _ _ _).mp found
    simp [key, other]

/-- The end of an attempt takes its own entry along, or none. -/
theorem finish (sound : Sound s) {k : Nat} {a : Attempt} (known : s.attempts[k]? = some a)
    (ends : a.Completes) : Sound ((s.pop k a.job).setPhase k .ended) := by
  -- Whoever has the entry of the job may complete, so it is this attempt.
  have mine (e : ActiveEntry) (found : s.active.find? a.job = some e) : e.attempt = k := by
    obtain ⟨b, there, job, running, free⟩ := sound.listed a.job e found
    exact sound.single e.attempt k b a there known (sound.completes there running free) ends job
  have others (l : Nat) (b : Attempt) (different : k ≠ l) (found : s.attempts[l]? = some b)
      (running : b.phase ≠ .ended) (free : b.cancelled = false) : b.job ≠ a.job := fun same =>
    different (sound.single k l a b known found ends (sound.completes found running free) same.symm)
  have single : ∀ (i l : Nat) (b c : Attempt),
      (s.attempts.modify k fun a => { a with phase := .ended })[i]? = some b →
      (s.attempts.modify k fun a => { a with phase := .ended })[l]? = some c →
      b.Completes → c.Completes → b.job = c.job → i = l := by
    intro i l b c first second runB runC same
    rcases getElem?_modify_cases known first with ⟨rfl, rfl⟩ | ⟨_, first⟩
    · exact absurd rfl runB.1
    rcases getElem?_modify_cases known second with ⟨rfl, rfl⟩ | ⟨_, second⟩
    · exact absurd rfl runC.1
    · exact sound.single i l b c first second runB runC same
  have marked : ∀ (l : Nat) (b : Attempt),
      (s.attempts.modify k fun a => { a with phase := .ended })[l]? = some b →
      b.signalled = true → b.cancelled = true := by
    intro l b found marks
    rcases getElem?_modify_cases known found with ⟨rfl, rfl⟩ | ⟨_, found⟩
    · exact sound.marked k a known marks
    · exact sound.marked l b found marks
  unfold Runtime.pop
  cases there : s.active.find? a.job with
  | none =>
    refine ⟨⟨sound.own, ?_⟩, ?_, single, marked, sound.seen, sound.distinct⟩
    · intro l b found running free
      rcases getElem?_modify_cases known found with ⟨rfl, rfl⟩ | ⟨_, found⟩
      · exact absurd rfl running
      · exact sound.entry l b found running free
    · intro i e found
      obtain ⟨b, at_, facts⟩ := sound.listed i e found
      refine ⟨b, (getElem?_modify_of_ne ?_).trans at_, facts⟩
      rintro rfl
      rw [known] at at_
      cases at_
      change s.active.find? i = some e at found
      rw [← facts.1, there] at found
      cases found
  | some mineEntry =>
    refine ⟨⟨?_, ?_⟩, ?_, single, marked, ?_, sound.distinct⟩
    · intro removal member
      rcases List.mem_cons.mp member with rfl | member
      · exact mine mineEntry there
      · exact sound.own removal member
    · intro l b found running free
      rcases getElem?_modify_cases known found with ⟨rfl, rfl⟩ | ⟨different, found⟩
      · exact absurd rfl running
      · exact (find?_delete_other (others l b different found running free)).trans
          (sound.entry l b found running free)
    · intro i e found
      obtain ⟨other, found⟩ := find?_delete_job found
      obtain ⟨b, at_, facts⟩ := sound.listed i e found
      refine ⟨b, (getElem?_modify_of_ne ?_).trans at_, facts⟩
      rintro rfl
      rw [known] at at_
      cases at_
      exact other facts.1.symm
    · intro old member e found
      exact sound.seen old member e (find?_delete_job found).2

/-- `_abandon` on account of the attempt that has the entry. -/
theorem abandon (sound : Sound s) {cause : Nat} {job : Uuid}
    (own : ∀ e, s.active.find? job = some e → e.attempt = cause) : Sound (s.abandon cause job) := by
  unfold Runtime.abandon Runtime.pop
  cases there : s.active.find? job with
  | none => exact sound
  | some entry =>
    obtain ⟨a, known, rfl, runs, free⟩ := sound.listed job entry there
    have cancelled : a.cancel = { a with cancelled := true, signalled := true } := by
      simp [Attempt.cancel, runs]
    have ends := sound.completes known runs free
    refine ⟨⟨?_, ?_⟩, ?_, ?_, ?_, ?_, sound.distinct⟩
    · intro removal member
      rcases List.mem_cons.mp member with rfl | member
      · exact own entry there
      · exact sound.own removal member
    · intro l b found running alive
      rcases getElem?_modify_cases known found with ⟨_, rfl⟩ | ⟨different, found⟩
      · rw [cancelled] at alive
        cases alive
      · have other : b.job ≠ a.job := fun same =>
          different (sound.single entry.attempt l a b known found ends
            (sound.completes found running alive) same.symm)
        exact (find?_delete_other other).trans (sound.entry l b found running alive)
    · intro i e found
      obtain ⟨other, found⟩ := find?_delete_job found
      obtain ⟨b, at_, facts⟩ := sound.listed i e found
      refine ⟨b, (getElem?_modify_of_ne ?_).trans at_, facts⟩
      intro same
      rw [← same, known] at at_
      cases at_
      exact other facts.1.symm
    · intro i l b c first second runB runC same
      have earlier (m : Nat) (d : Attempt) (found : (s.attempts.modify entry.attempt Attempt.cancel)[m]?
          = some d) (running : d.Completes) :
          ∃ d', s.attempts[m]? = some d' ∧ d'.Completes ∧ d'.job = d.job := by
        rcases getElem?_modify_cases known found with ⟨rfl, rfl⟩ | ⟨_, found⟩
        · exact ⟨a, known, ends, by rw [cancelled]⟩
        · exact ⟨d, found, running, rfl⟩
      obtain ⟨b', first, runB, jobB⟩ := earlier i b first runB
      obtain ⟨c', second, runC, jobC⟩ := earlier l c second runC
      exact sound.single i l b' c' first second runB runC (jobB.trans (same.trans jobC.symm))
    · intro l b found marks
      rcases getElem?_modify_cases known found with ⟨_, rfl⟩ | ⟨_, found⟩
      · rw [cancelled]
      · exact sound.marked l b found marks
    · intro old member e found
      exact sound.seen old member e (find?_delete_job found).2

theorem find?_of_abandon {cause : Nat} {job i : Uuid} {e : ActiveEntry}
    (found : (s.abandon cause job).active.find? i = some e) : s.active.find? i = some e := by
  unfold Runtime.abandon Runtime.pop at found
  cases there : s.active.find? job with
  | none => simpa [there] using found
  | some entry =>
    rw [there] at found
    exact (find?_delete_job found).2

/-- Entries abandoned one after the other, each as long as it is still the one of its job. -/
theorem abandonAll {entries : List ActiveEntry} (sound : Sound s)
    (own : ∀ entry ∈ entries, ∀ e, s.active.find? entry.job = some e → e = entry) :
    Sound (entries.foldl (fun s entry => s.abandon entry.attempt entry.job) s) := by
  induction entries generalizing s with
  | nil => exact sound
  | cons entry entries ih =>
    rw [List.foldl_cons]
    apply ih
    · apply sound.abandon
      intro e found
      rw [own entry List.mem_cons_self e found]
    · intro other member e found
      exact own other (List.mem_cons_of_mem _ member) e (find?_of_abandon found)

theorem fence (sound : Sound s) : Sound s.fence := by
  unfold Runtime.fence
  split
  · exact sound
  · have raised : Sound { s with fenced := true } :=
      sound.congr rfl rfl rfl (fun _ member => member) sound.distinct
    apply raised.abandonAll
    intro entry member e found
    have same : s.active.find? entry.job = some entry := s.active.find?_of_mem member
    change s.active.find? entry.job = some e at found
    rw [same] at found
    exact (Option.some.inj found).symm

/-- A settled job has no entry, so the start adds one. -/
theorem find?_of_settled (sound : Sound s) {job : Uuid} (settled : Settled s job) :
    s.active.find? job = none := by
  cases there : s.active.find? job with
  | none => rfl
  | some e =>
    obtain ⟨a, known, same, runs, free⟩ := sound.listed job e there
    exact absurd (sound.completes known runs free) (settled.1 a (List.mem_of_getElem? known) same)

theorem start (sound : Sound s) {job : Uuid} (settled : Settled s job) : Sound (s.start job) := by
  have absent := sound.find?_of_settled settled
  have fresh := (Table.find?_eq_none _ _).mp absent
  have added (i : Uuid) : (s.active.insert ⟨job, s.attempts.length⟩).find? i =
      if job = i then some ⟨job, s.attempts.length⟩ else s.active.find? i :=
    s.active.find?_insert ⟨job, s.attempts.length⟩ fresh i
  have cases_ (l : Nat) (b : Attempt)
      (found : (s.attempts ++ [⟨job, .handling, false, false⟩])[l]? = some b) :
      (l = s.attempts.length ∧ b = ⟨job, .handling, false, false⟩) ∨ s.attempts[l]? = some b := by
    rw [List.getElem?_append] at found
    split at found
    · exact .inr found
    · rename_i beyond
      rw [List.getElem?_singleton] at found
      split at found
      · cases found
        exact .inl ⟨by omega, rfl⟩
      · cases found
  unfold Runtime.start
  rw [absent]
  refine ⟨⟨sound.own, ?_⟩, ?_, ?_, ?_, ?_, sound.distinct⟩
  · intro l b found running free
    rcases cases_ l b found with ⟨rfl, rfl⟩ | older
    · exact (added job).trans (if_pos rfl)
    · rw [added, if_neg]
      · exact sound.entry l b older running free
      · intro same
        exact settled.1 b (List.mem_of_getElem? older) same.symm (sound.completes older running free)
  · intro i e found
    rw [added] at found
    split at found
    · rename_i same
      cases found
      exact ⟨⟨job, .handling, false, false⟩, by simp, same, by simp, rfl⟩
    · obtain ⟨a, there, facts⟩ := sound.listed i e found
      have bound := (List.getElem?_eq_some_iff.mp there).1
      exact ⟨a, (List.getElem?_append_left bound).trans there, facts⟩
  · intro i l b c first second runB runC same
    rcases cases_ i b first with ⟨rfl, rfl⟩ | first
    · rcases cases_ l c second with ⟨rfl, _⟩ | second
      · rfl
      · exact absurd runC (settled.1 c (List.mem_of_getElem? second) same.symm)
    · rcases cases_ l c second with ⟨rfl, rfl⟩ | second
      · exact absurd runB (settled.1 b (List.mem_of_getElem? first) same)
      · exact sound.single i l b c first second runB runC same
  · intro l b found marks
    rcases cases_ l b found with ⟨_, rfl⟩ | found
    · cases marks
    · exact sound.marked l b found marks
  · intro old member e found
    rw [added, if_neg (settled.2 old member).symm] at found
    exact sound.seen old member e found

theorem settled_start {job other : Uuid} (different : other ≠ job) (settled : Settled s other) :
    Settled (s.start job) other := by
  have attempts : (s.start job).attempts = s.attempts ++ [⟨job, .handling, false, false⟩] := by
    unfold Runtime.start
    split <;> rfl
  have tick : (s.start job).tick = s.tick := by
    unfold Runtime.start
    split <;> rfl
  refine ⟨?_, tick ▸ settled.2⟩
  intro a member same
  rw [attempts, List.mem_append, List.mem_singleton] at member
  rcases member with member | rfl
  · exact settled.1 a member same
  · exact absurd same.symm different

theorem startAll {jobs : List Uuid} (sound : Sound s) (nodup : jobs.Nodup)
    (settled : ∀ job ∈ jobs, Settled s job) : Sound (jobs.foldl Runtime.start s) := by
  induction jobs generalizing s with
  | nil => exact sound
  | cons job jobs ih =>
    obtain ⟨absent, nodup⟩ := List.nodup_cons.mp nodup
    rw [List.foldl_cons]
    apply ih (sound.start (settled job List.mem_cons_self)) nodup
    intro other member
    apply settled_start _ (settled other (List.mem_cons_of_mem _ member))
    rintro rfl
    exact absent member

theorem claimRows (sound : Sound s) (jobs : List Uuid) (nodup : jobs.Nodup) :
    Sound { jobs.foldl (fun s job => s.setRow job .leased) s with claim := .taken jobs } := by
  suffices same : ∀ t : Runtime, (jobs.foldl (fun s job => s.setRow job .leased) t).attempts = t.attempts ∧
      (jobs.foldl (fun s job => s.setRow job .leased) t).active = t.active ∧
      (jobs.foldl (fun s job => s.setRow job .leased) t).removals = t.removals ∧
      (jobs.foldl (fun s job => s.setRow job .leased) t).tick = t.tick by
    obtain ⟨attempts, active, removals, tick⟩ := same s
    refine sound.congr attempts active removals (fun entry member => tick ▸ member) ?_
    intro taken claimed
    cases claimed
    exact nodup
  clear nodup
  induction jobs with
  | nil => exact fun t => ⟨rfl, rfl, rfl, rfl⟩
  | cons job jobs ih => exact fun t => ih (t.setRow job .leased)

/-- Every step that starts settled jobs only keeps the table sound. -/
theorem step {batch : Nat} {event : Runtime.Event} (sound : Sound s)
    (ok : StartsSettled s event) (stepped : s.step batch event = some next) : Sound next := by
  have still {t : Runtime} (attempts : t.attempts = s.attempts) (active : t.active = s.active)
      (removals : t.removals = s.removals) (tick : t.tick = s.tick) (claim : t.claim = s.claim) :
      Sound t :=
    sound.congr attempts active removals (fun _ member => tick ▸ member) (claim ▸ sound.distinct)
  cases event with
  | claimBegin slots =>
    simp only [Runtime.step] at stepped
    split at stepped
    · cases stepped
      exact sound.congr rfl rfl rfl (fun _ member => member) (by simp)
    · cases stepped
  | claimCommit jobs =>
    simp only [Runtime.step] at stepped
    split at stepped
    · split at stepped
      · rename_i facts
        cases stepped
        exact sound.claimRows jobs facts.1
      · cases stepped
    · cases stepped
  | claimFail =>
    simp only [Runtime.step] at stepped
    split at stepped
    · cases stepped
      exact sound.congr rfl rfl rfl (fun _ member => member) (by simp)
    · cases stepped
  | claimResume =>
    simp only [Runtime.step] at stepped
    split at stepped
    · rename_i jobs claimed
      have idle : Sound { s with claim := .idle } :=
        sound.congr rfl rfl rfl (fun _ member => member) (by simp)
      split at stepped
      · cases stepped
        exact idle
      · rename_i unfenced
        cases stepped
        apply idle.startAll (sound.distinct jobs claimed)
        intro job member
        exact ok job (by simpa [Runtime.starting, claimed, unfenced] using member)
    · cases stepped
  | handled k =>
    simp only [Runtime.step] at stepped
    split at stepped
    · rename_i a known
      split at stepped
      · rename_i facts
        cases stepped
        exact sound.touch known (by simp [facts.1]) rfl (by simp) rfl id
          fun _ => ⟨by simp [facts.1], fun _ => facts.1⟩
      · cases stepped
    · cases stepped
  | reportCommit k again =>
    simp only [Runtime.step] at stepped
    split at stepped
    · rename_i a known
      split at stepped
      · rename_i facts
        cases stepped
        have written : Sound (s.setRow a.job (if again then .waiting else .finished)) :=
          still rfl rfl rfl rfl rfl
        apply written.touch known (by simp [facts.1]) rfl (by simp) rfl id
        intro ends
        refine ⟨by simp [facts.1], fun signalled => ?_⟩
        cases ends.2 signalled
      · cases stepped
    · cases stepped
  | reportEnd k =>
    simp only [Runtime.step] at stepped
    split at stepped
    · rename_i a known
      split at stepped
      · rename_i facts
        cases stepped
        apply sound.finish known
        refine ⟨?_, by simp [facts.2]⟩
        rcases facts.1 with phase | phase <;> simp [phase]
      · cases stepped
    · cases stepped
  | swallow k =>
    simp only [Runtime.step] at stepped
    split at stepped
    · rename_i a known
      split at stepped
      · rename_i facts
        cases stepped
        exact sound.touch known (by simp [facts.1]) rfl (by simp [facts.1]) rfl (by simp)
          fun _ => ⟨by simp [facts.1], fun _ => facts.1⟩
      · cases stepped
    · cases stepped
  | unwind k =>
    simp only [Runtime.step] at stepped
    split at stepped
    · rename_i a known
      split at stepped
      · rename_i facts
        cases stepped
        exact sound.unwind known facts.2
      · cases stepped
    · cases stepped
  | tickBegin =>
    simp only [Runtime.step] at stepped
    split at stepped
    · cases stepped
      refine ⟨⟨sound.own, sound.entry⟩, sound.listed, sound.single, sound.marked, ?_, sound.distinct⟩
      intro old member e found
      rw [TickState.pending, List.append_nil] at member
      have mine : s.active.find? old.job = some old := s.active.find?_of_mem member
      change s.active.find? old.job = some e at found
      rw [mine] at found
      exact (Option.some.inj found).symm
    · cases stepped
  | beat =>
    simp only [Runtime.step] at stepped
    split at stepped
    · rename_i entry todo lost ticking
      split at stepped
      · cases stepped
        refine sound.congr rfl rfl rfl ?_ sound.distinct
        intro old member
        rw [ticking]
        exact List.mem_cons_of_mem _ member
      · cases stepped
        refine sound.congr rfl rfl rfl ?_ sound.distinct
        intro old member
        rw [ticking]
        simp only [TickState.pending, List.mem_append, List.mem_cons, List.not_mem_nil,
          or_false] at member ⊢
        tauto
    · cases stepped
  | tickConfirm =>
    simp only [Runtime.step] at stepped
    split at stepped
    · rename_i lost ticking
      cases stepped
      refine sound.congr rfl rfl rfl ?_ sound.distinct
      intro old member
      rw [ticking]
      exact member
    · cases stepped
  | tickSettle =>
    simp only [Runtime.step] at stepped
    split at stepped
    · rename_i lost ticking
      cases stepped
      have settled : Sound (lost.foldl (fun s entry => s.abandon entry.attempt entry.job) s) := by
        apply sound.abandonAll
        intro entry member
        exact sound.seen entry (ticking ▸ member)
      exact settled.congr rfl rfl rfl (fun _ member => absurd member List.not_mem_nil) settled.distinct
    · cases stepped
  | tickFail fences =>
    simp only [Runtime.step] at stepped
    have idle : Sound { s with tick := .idle } :=
      sound.congr rfl rfl rfl (fun _ member => absurd member List.not_mem_nil) sound.distinct
    split at stepped
    · cases stepped
    · cases stepped
      split
      · exact idle.fence
      · exact idle
  | watchdog =>
    cases stepped
    exact sound.fence
  | recover job =>
    simp only [Runtime.step] at stepped
    split at stepped
    · cases stepped
      exact still rfl rfl rfl rfl rfl
    · cases stepped
  | others job row =>
    simp only [Runtime.step] at stepped
    split at stepped
    · cases stepped
      exact still rfl rfl rfl rfl rfl
    · cases stepped

end Sound

/-- In every run in which the claim loop starts settled jobs only, the table tracks attempts in
every state reached. -/
theorem tracked_of_settled_starts {batch : Nat} {s : Runtime}
    (reached : Runtime.Reach batch StartsSettled s) : Tracked s := by
  suffices Sound s from this.toTracked
  induction reached with
  | start rows => exact Sound.initial rows
  | step _ ok stepped ih => exact ih.step ok stepped

/-- A deferred job that is claimed again once its first attempt is over. -/
def deferAndReclaim : List Runtime.Event :=
  [.claimBegin 2, .claimCommit [7], .claimResume, .handled 0, .reportCommit 0 true, .reportEnd 0,
    .claimBegin 2, .claimCommit [7], .claimResume]

theorem tracked_after_reclaim : ∃ s, (Runtime.initial fun _ => .waiting).replay 8 StartsSettled
    deferAndReclaim = some s ∧ s.active.rows = [⟨7, 1⟩] ∧ Tracked s := by
  obtain ⟨s, ran, rows⟩ : ∃ s, (Runtime.initial fun _ => .waiting).replay 8 StartsSettled
    deferAndReclaim = some s ∧ s.active.rows = [⟨7, 1⟩] := ⟨_, rfl, rfl⟩
  exact ⟨s, ran, rows, tracked_of_settled_starts (Runtime.reach_replay (.start _) ran)⟩

/-- The report of the first attempt is committed and the claim loop takes the job again before
the first attempt gets to its `finally`, which then removes the entry of the second. -/
def reclaimBeforeEnd : List Runtime.Event :=
  [.claimBegin 2, .claimCommit [7], .claimResume, .handled 0, .reportCommit 0 true, .claimBegin 2,
    .claimCommit [7], .claimResume, .reportEnd 0]

theorem active_table_loses_second_attempt :
    ¬∀ batch s, Runtime.Reach batch (fun _ _ => True) s → Tracked s := by
  intro tracked
  obtain ⟨s, ran, running, gone⟩ : ∃ s,
      (Runtime.initial fun _ => .waiting).replay 8 (fun _ _ => True) reclaimBeforeEnd = some s ∧
        s.attempts[1]? = some ⟨7, .handling, false, false⟩ ∧ s.active.find? 7 = none :=
    ⟨_, rfl, rfl, rfl⟩
  have entry := (tracked 8 s (Runtime.reach_replay (.start _) ran)).entry 1 _ running (by simp) rfl
  rw [gone] at entry
  cases entry

end Collector.Workers
