import Collector.Fetch.GuardedRequests
import Mathlib.Data.List.Nodup

/-!
Which permits are given back. A fetch gives back what it knows it holds, the oldest first, and a
cancellation ends that too; and of a permit that the limiter granted while the answer was lost a
fetch does not know.
-/

namespace Collector.Fetch
open Collector.Lib Collector.Persistence

section Accounts
-- what an acquisition that ended with an exception had granted: nothing, or a permit all the same
variable (lost : Exchange → Option Permit)

/-- The permit that an exchange with the limiter granted, known or not. -/
def grantIn : Exchange → Option Permit
  | ⟨.acquire _ _, .ok (.inl permit)⟩ => some permit
  | ⟨.acquire origin jobId, .error e⟩ => lost ⟨.acquire origin jobId, .error e⟩
  | _ => none

/-- The permit that an acquisition granted and did not tell of. -/
def lostIn : Exchange → Option Permit
  | ⟨.acquire origin jobId, .error e⟩ => lost ⟨.acquire origin jobId, .error e⟩
  | _ => none

def lostGrants (past : List Exchange) : List Permit := past.filterMap (lostIn lost)

def grants (past : List Exchange) : List Permit := past.filterMap (grantIn lost)

/-- Every permit that was granted has been given back. -/
def NoLeak (past : List Exchange) : Prop := ∀ permit ∈ grants lost past, permit ∈ released past

/-- An acquisition that ended with an exception had granted nothing. -/
def NothingLost (past : List Exchange) : Prop :=
  ∀ origin jobId e, (⟨.acquire origin jobId, .error e⟩ : Exchange) ∈ past →
    lost ⟨.acquire origin jobId, .error e⟩ = none

/-- Only the last release that was due was cut off by a cancellation. -/
def LastOnly (past : List Exchange) : Prop :=
  ∀ newer permit older, past = newer ++ ⟨.release permit, .error .cancelled⟩ :: older →
    (released older).length + 1 = (granted older).length

end Accounts

/-- Neither with the limiter nor about a permit. -/
def FetchQuestion.aside : FetchQuestion → Bool
  | .acquire _ _ => false
  | .release _ => false
  | _ => true

section Holding

/-- Before anything is given back: what is held is what was granted, oldest first. -/
structure Holding (past : List Exchange) (s : FetchState) : Prop where
  held : s.held = (granted past).reverse
  kept : released past = []

theorem grantedIn_aside {q : FetchQuestion} (a : FetchAnswer q) (aside : q.aside = true) :
    grantedIn ⟨q, a⟩ = none := by
  cases q <;> first | rfl | cases aside

theorem releasedIn_aside {q : FetchQuestion} (a : FetchAnswer q) (aside : q.aside = true) :
    releasedIn ⟨q, a⟩ = none := by
  cases q <;> first | rfl | cases aside

theorem Holding.aside {past : List Exchange} {s : FetchState} (holding : Holding past s)
    {q : FetchQuestion} (a : FetchAnswer q) (aside : q.aside = true) : Holding (⟨q, a⟩ :: past) s := by
  refine ⟨?_, ?_⟩
  · rw [granted, List.filterMap_cons_none (grantedIn_aside a aside)]
    exact holding.held
  · rw [released, List.filterMap_cons_none (releasedIn_aside a aside)]
    exact holding.kept

/-- The action leaves what is held in step with what was granted, however it ends. -/
def Tracks {β : Type} (p : FetchAct β) : Prop :=
  ∀ past s, Holding past s → p.Safe (fun _ _ => True) (fun past _ s => Holding past s) past s

variable {β γ : Type}

theorem Tracks.bind {p : FetchAct γ} {f : γ → FetchAct β} (first : Tracks p)
    (next : ∀ b, Tracks (f b)) : Tracks (p >>= f) := fun past s holding =>
  (first past s holding).andThen (fun _ _ _ holding => holding)
    fun _ b _ holding => next b _ _ holding

theorem tracks_pure (b : β) : Tracks (pure b) := fun _ _ holding => holding

theorem tracks_raise (e : FetchRaise) : Tracks (Act.raise e : FetchAct β) := fun _ _ holding => holding

theorem tracks_ofExcept (x : Except FetchRaise β) : Tracks (Act.ofExcept x) := by
  cases x with
  | error e => exact tracks_raise e
  | ok b => exact tracks_pure b

theorem tracks_get {f : FetchState → FetchAct β} (next : ∀ s, Tracks (f s)) :
    Tracks (Act.get >>= f) := fun past s holding => next s past s holding

theorem tracks_modify {change : FetchState → FetchState} (same : ∀ s, (change s).held = s.held) :
    Tracks (Act.modify change) := fun _ s holding => ⟨(same s).trans holding.held, holding.kept⟩

theorem tracks_ask {q : FetchQuestion} (aside : q.aside = true) {f : FetchAnswer q → FetchAct β}
    (next : ∀ a, Tracks (f a)) : Tracks (Act.ask q >>= f) := fun _ s holding =>
  ⟨trivial, fun a => next a _ s (holding.aside a aside)⟩

theorem Tracks.attempt {p : FetchAct γ} {f : Except FetchRaise γ → FetchAct β} (tried : Tracks p)
    (next : ∀ x, Tracks (f x)) : Tracks (Act.attempt p >>= f) := fun past s holding =>
  Act.safe_attempt ((tried past s holding).mono fun past r s holding => next r past s holding)

theorem Tracks.map {p : FetchAct γ} {g : γ → β} (tracks : Tracks p) : Tracks (g <$> p) :=
  tracks.bind fun b => tracks_pure (g b)

variable {tools : FetchTools} {f : SafeFetcher} {request : FetchRequest}

theorem failed_tracks (decision : FetchDecision) : Tracks (SafeFetcher.failed tools request decision) :=
  tracks_get fun _ => tracks_pure _

theorem denied_tracks (d : Denied) (redirected : Bool) :
    Tracks (SafeFetcher.denied tools request d redirected) := by
  unfold SafeFetcher.denied
  split
  · exact failed_tracks _
  · intro past s holding
    cases d.retryAfter with
    | none => exact holding
    | some at_ => exact ⟨trivial, fun now => holding.aside (q := .now) now rfl⟩

theorem checkDeadline_tracks (deadline : ℚ) : Tracks (SafeFetcher.checkDeadline deadline) := by
  refine tracks_ask rfl fun now => ?_
  split
  · exact tracks_raise _
  · exact tracks_pure _

theorem checkGuard_tracks (url : String) : Tracks (f.checkGuard tools url) := by
  refine (tracks_ofExcept _).bind fun guarded => ?_
  split
  · exact (tracks_ofExcept _).bind fun _ => tracks_pure _
  · refine tracks_ask rfl fun file => tracks_get fun s => (tracks_ofExcept _).bind fun list => ?_
    refine (tracks_modify (by intro _; rfl)).bind fun _ => ?_
    exact (tracks_ofExcept _).bind fun _ => (tracks_ofExcept _).bind fun _ => tracks_pure _

theorem resolvePinned_tracks (host : String) (port : Nat) :
    Tracks (SafeFetcher.resolvePinned tools host port) := by
  refine (tracks_ofExcept _).bind fun literal => ?_
  split
  · exact tracks_pure _
  · refine tracks_ask rfl fun answers => (tracks_ofExcept _).bind fun answers => ?_
    split
    · exact tracks_raise _
    · refine (tracks_ofExcept _).bind fun found => ?_
      split
      · exact tracks_pure _
      · exact tracks_raise _

/-- The one place where something is granted. -/
theorem permitFor_tracks (origin : String) (redirected : Bool) :
    Tracks (SafeFetcher.permitFor tools request origin redirected) := by
  intro past s holding
  rw [SafeFetcher.permitFor, Act.safe_get]
  cases s.held.lookup origin with
  | some permit => exact holding
  | none =>
    rw [Act.safe_ask]
    refine ⟨trivial, fun answer => ?_⟩
    rcases answer with e | permit | d
    · exact ⟨holding.held, holding.kept⟩
    · have more : granted (⟨.acquire origin request.jobId, .ok (.inl permit)⟩ :: past) =
          (origin, permit) :: granted past := rfl
      refine ⟨?_, holding.kept⟩
      change s.held ++ [(origin, permit)] = _
      rw [more, List.reverse_cons, holding.held]
    · have asked : Holding (⟨.acquire origin request.jobId, .ok (.inr d)⟩ :: past) s :=
        ⟨holding.held, holding.kept⟩
      exact ((denied_tracks d redirected).bind fun _ => tracks_pure _) _ s asked

theorem leaseTooShort_tracks (deadline : ℚ) (permit : Permit) :
    Tracks (SafeFetcher.leaseTooShort deadline permit) :=
  tracks_ask rfl fun _ => tracks_ask rfl fun _ => tracks_pure _

theorem send_tracks (url : String) (hop : Nat) : Tracks (f.send tools request url hop) := by
  unfold SafeFetcher.send
  split
  · exact tracks_raise _
  · refine tracks_get fun s => ?_
    split
    · exact tracks_raise _
    · exact tracks_ask rfl fun _ => tracks_ofExcept _

theorem completed_tracks (response : Response) (decision : FetchDecision) (body : Option Body) :
    Tracks (SafeFetcher.completed tools request response decision body) :=
  tracks_get fun _ => tracks_pure _

theorem readResponse_tracks (response : Response) (limits : BodyLimits) (now : Time) :
    Tracks (SafeFetcher.readResponse tools request response limits now) := by
  refine tracks_ask rfl fun read => ?_
  split
  · exact completed_tracks _ _ _
  · exact completed_tracks _ _ _
  · exact tracks_raise _
  · split
    · exact tracks_raise _
    · exact completed_tracks _ _ _

theorem blockOrigin_tracks (origin : String) (now : Time) (decision : FetchDecision) :
    Tracks (SafeFetcher.blockOrigin origin now decision) := by
  unfold SafeFetcher.blockOrigin
  split
  · exact tracks_ask rfl fun _ => tracks_ofExcept _
  · exact tracks_pure _

theorem complete_tracks (response : Response) (origin : String) :
    Tracks (f.complete tools request response origin) := by
  refine tracks_ask rfl fun now => ?_
  split
  · split
    · exact tracks_raise _
    · exact (blockOrigin_tracks _ _ _).bind fun _ => completed_tracks _ _ _
  · split
    · exact completed_tracks _ _ _
    · dsimp only
      split
      · exact tracks_raise _
      · exact completed_tracks _ _ _
      · exact readResponse_tracks _ _ _

theorem afterResponse_tracks (response : Response) (guarded : GuardedUrl) (origin : String)
    (address : IpAddress) : Tracks (f.afterResponse tools request response guarded origin address) := by
  refine (tracks_modify (by intro _; rfl)).bind fun _ => ?_
  dsimp only
  split
  · exact (tracks_ofExcept _).map
  · exact (complete_tracks _ _).map

theorem run_tracks (deadline : ℚ) (left hop : Nat) (url : String) :
    Tracks (f.run tools request deadline left hop url) := by
  induction left generalizing hop url with
  | zero => exact failed_tracks _
  | succ left ih =>
    refine (checkDeadline_tracks deadline).bind fun _ => (checkGuard_tracks url).bind fun guarded => ?_
    refine (tracks_ofExcept _).bind fun origin => (resolvePinned_tracks _ _).bind fun address => ?_
    refine (tracks_modify (by intro _; rfl)).bind fun _ => (permitFor_tracks _ _).bind fun found => ?_
    split
    · exact tracks_pure _
    · refine (leaseTooShort_tracks _ _).bind fun short => ?_
      split
      · exact failed_tracks _
      · refine (send_tracks _ _).bind fun response => (afterResponse_tracks _ _ _ _).attempt fun outcome => ?_
        refine tracks_ask rfl fun closed => (tracks_ofExcept _).bind fun _ => ?_
        refine (tracks_ofExcept _).bind fun target => ?_
        split
        · exact tracks_pure _
        · exact ih _ _

theorem withClient_tracks (deadline : ℚ) : Tracks (f.withClient tools request deadline) :=
  (run_tracks _ _ _ _).attempt fun _ =>
    tracks_ask rfl fun _ => (tracks_ofExcept _).bind fun _ => tracks_ofExcept _

theorem handled_tracks (outcome : Except FetchRaise FetchResult) :
    Tracks (SafeFetcher.handled tools request outcome) := by
  unfold SafeFetcher.handled
  split
  · exact tracks_pure _
  · split
    · exact failed_tracks _
    · exact tracks_raise _

end Holding

section Releasing

/-- The exchanges of a release loop, newest first: it ends with the last permit, or with the first
cancellation. -/
inductive Released : List (String × Permit) → List Exchange → Prop where
  | nil : Released [] []
  | cut {origin : String} {permit : Permit} {rest : List (String × Permit)} :
      Released ((origin, permit) :: rest) [⟨.release permit, .error .cancelled⟩]
  | next {origin : String} {permit : Permit} {rest : List (String × Permit)} {newer : List Exchange}
      {answer : Except FetchRaise Unit} : answer ≠ .error .cancelled → Released rest newer →
      Released ((origin, permit) :: rest) (newer ++ [⟨.release permit, answer⟩])

theorem releaseAll_released {past : List Exchange} {s : FetchState} (held : List (String × Permit)) :
    (SafeFetcher.releaseAll held).Safe (fun _ _ => True)
      (fun after _ _ => ∃ newer, after = newer ++ past ∧ Released held newer) past s := by
  induction held generalizing past with
  | nil => exact ⟨[], rfl, .nil⟩
  | cons first rest ih =>
    obtain ⟨origin, permit⟩ := first
    rw [SafeFetcher.releaseAll, Act.safe_ask]
    refine ⟨trivial, fun answer => ?_⟩
    split
    · exact ⟨[_], rfl, .cut⟩
    · next other =>
      apply ih.mono
      rintro after r s ⟨newer, rfl, released⟩
      refine ⟨newer ++ [⟨.release permit, answer⟩], by simp, .next (fun same => ?_) released⟩
      exact other same

theorem released_append (newer older : List Exchange) :
    released (newer ++ older) = released newer ++ released older := List.filterMap_append

theorem granted_append (newer older : List Exchange) :
    granted (newer ++ older) = granted newer ++ granted older := List.filterMap_append

variable {held : List (String × Permit)} {newer : List Exchange}

/-- The permits of the loop are a first part of what was held, and all of it without a cut. -/
theorem Released.first (loop : Released held newer) :
    ∃ rest, held.map Prod.snd = (released newer).reverse ++ rest ∧
      (rest ≠ [] → ∃ permit older, newer = ⟨.release permit, .error .cancelled⟩ :: older) := by
  induction loop with
  | nil => exact ⟨[], rfl, fun more => absurd rfl more⟩
  | @cut origin permit rest => exact ⟨rest.map Prod.snd, rfl, fun _ => ⟨permit, [], rfl⟩⟩
  | @next origin permit _ newer answer _ _ ih =>
    obtain ⟨rest, shape, stopped⟩ := ih
    have more : released (newer ++ [⟨.release permit, answer⟩]) = released newer ++ [permit] :=
      released_append newer _
    refine ⟨rest, ?_, fun left => ?_⟩
    · rw [more, List.reverse_concat', List.map_cons, shape]
      rfl
    · obtain ⟨last, older, same⟩ := stopped left
      exact ⟨last, older ++ [⟨.release permit, answer⟩], by rw [same, List.cons_append]⟩

/-- A cancellation ends the loop. -/
theorem Released.cut_last (loop : Released held newer) (permit : Permit) :
    (⟨.release permit, .error .cancelled⟩ : Exchange) ∉ newer.tail := by
  induction loop with
  | nil => exact List.not_mem_nil
  | cut => exact List.not_mem_nil
  | @next origin other rest newer answer goesOn _ ih =>
    cases newer with
    | nil => exact List.not_mem_nil
    | cons last older =>
      intro member
      rcases List.mem_append.mp member with earlier | same
      · exact ih earlier
      · cases List.mem_singleton.mp same
        exact goesOn rfl

theorem Released.aside (loop : Released held newer) (lost : Exchange → Option Permit) :
    granted newer = [] ∧ grants lost newer = [] := by
  induction loop with
  | nil => exact ⟨rfl, rfl⟩
  | cut => exact ⟨rfl, rfl⟩
  | @next origin permit _ newer answer _ _ ih =>
    refine ⟨?_, ?_⟩
    · rw [granted_append, ih.1]
      rfl
    · rw [grants, List.filterMap_append, ← grants, ih.2]
      rfl

end Releasing

section Endings
variable {tools : FetchTools} {f : SafeFetcher} {request : FetchRequest}

/-- How every fetch ends: with the release loop over what it holds. -/
def Finished (past : List Exchange) : Prop :=
  ∃ newer older s, past = newer ++ older ∧ Holding older s ∧ Released s.held newer

theorem fetch_ended (denylist : Denylist) :
    (f.fetch tools request).Safe (fun _ _ => True) (fun past _ _ => Finished past) [] { denylist } := by
  rw [SafeFetcher.fetch, Act.safe_ask]
  refine ⟨trivial, fun start => ?_⟩
  have begun : Holding [⟨.clock, start⟩] { denylist } := ⟨rfl, rfl⟩
  apply Act.safe_attempt
  apply (withClient_tracks _ _ _ begun).mono
  intro past outcome s holding
  apply Act.safe_attempt
  apply (handled_tracks _ _ _ holding).mono
  intro past outcome s holding
  rw [Act.safe_get]
  apply (releaseAll_released s.held).andThen
  · rintro after e _ ⟨newer, same, loop⟩
    exact ⟨newer, past, s, same, holding, loop⟩
  · rintro after _ _ ⟨newer, same, loop⟩
    cases outcome <;> exact ⟨newer, past, s, same, holding, loop⟩

variable {lost : Exchange → Option Permit} {past : List Exchange}

theorem lost_mem {origin : String} {jobId : Option Uuid} {e : FetchRaise} {permit : Permit}
    (asked : (⟨.acquire origin jobId, .error e⟩ : Exchange) ∈ past)
    (granted : lost ⟨.acquire origin jobId, .error e⟩ = some permit) :
    permit ∈ lostGrants lost past := List.mem_filterMap.mpr ⟨_, asked, granted⟩

theorem NothingLost.none (nothing : NothingLost lost past) : lostGrants lost past = [] := by
  rw [lostGrants, List.filterMap_eq_nil_iff]
  intro x member
  obtain ⟨q, answer⟩ := x
  cases q with
  | acquire origin jobId =>
    cases answer with
    | error e => exact nothing origin jobId e member
    | ok given => rfl
  | _ => rfl

/-- What was granted is known to the fetch or lost. -/
theorem grants_perm : (grants lost past).Perm
    ((granted past).map Prod.snd ++ lostGrants lost past) := by
  induction past with
  | nil => exact .nil
  | cons x past ih =>
    obtain ⟨q, answer⟩ := x
    cases q with
    | acquire origin jobId =>
      rcases answer with e | permit | d
      · cases known : lost ⟨.acquire origin jobId, .error e⟩ with
        | none =>
          have more : grants lost (⟨.acquire origin jobId, .error e⟩ :: past) = grants lost past :=
            List.filterMap_cons_none known
          have same : lostGrants lost (⟨.acquire origin jobId, .error e⟩ :: past) = lostGrants lost past :=
            List.filterMap_cons_none known
          rw [more, same]
          exact ih
        | some permit =>
          have more : grants lost (⟨.acquire origin jobId, .error e⟩ :: past) =
              permit :: grants lost past := List.filterMap_cons_some known
          have same : lostGrants lost (⟨.acquire origin jobId, .error e⟩ :: past) =
              permit :: lostGrants lost past := List.filterMap_cons_some known
          rw [more, same]
          exact (ih.cons permit).trans List.perm_middle.symm
      · exact ih.cons permit
      · exact ih
    | _ => exact ih

variable {newer older : List Exchange} {s : FetchState}

/-- The loop gives back all that was held, if it is not cut before the last permit. -/
theorem Released.all (holding : Holding older s) (loop : Released s.held newer)
    (last : LastOnly (newer ++ older)) : s.held.map Prod.snd = (released newer).reverse := by
  obtain ⟨rest, shape, stopped⟩ := loop.first
  by_cases more : rest = []
  · rw [shape, more, List.append_nil]
  obtain ⟨permit, earlier, same⟩ := stopped more
  subst same
  have due := last [] permit (earlier ++ older) rfl
  have none : granted earlier = [] := (loop.aside (fun _ => Option.none)).1
  rw [released_append, holding.kept, granted_append, none, List.append_nil, List.nil_append] at due
  have count := congrArg List.length shape
  have step : released (⟨.release permit, .error .cancelled⟩ :: earlier) = permit :: released earlier := rfl
  rw [List.length_append, List.length_reverse, List.length_map, holding.held, List.length_reverse, step,
    List.length_cons, due] at count
  exact absurd (List.eq_nil_of_length_eq_zero (by omega)) more

/-- With distinct permits: all that was held is given back only by a loop that is not cut before. -/
theorem Released.last_only (holding : Holding older s) (loop : Released s.held newer)
    (distinct : (s.held.map Prod.snd).Nodup)
    (all : ∀ permit ∈ s.held.map Prod.snd, permit ∈ released newer) : LastOnly (newer ++ older) := by
  intro later permit earlier shape
  obtain ⟨rest, parts, _⟩ := loop.first
  have whole : rest = [] := by
    rw [List.eq_nil_iff_forall_not_mem]
    intro left member
    have again := all left (parts ▸ List.mem_append_right _ member)
    rw [parts, List.nodup_append] at distinct
    exact distinct.2.2 left (List.mem_reverse.mpr again) left member rfl
  have unseen : (⟨.release permit, .error .cancelled⟩ : Exchange) ∉ older := by
    intro member
    have back : permit ∈ released older := List.mem_filterMap.mpr ⟨_, member, rfl⟩
    rw [holding.kept] at back
    exact List.not_mem_nil back
  cases newer with
  | nil =>
    rw [List.nil_append] at shape
    rw [shape] at unseen
    exact absurd (List.mem_append_right later List.mem_cons_self) unseen
  | cons first rest =>
    rw [List.cons_append] at shape
    cases later with
    | cons _ later =>
      have member : (⟨.release permit, .error .cancelled⟩ : Exchange) ∈ rest ++ older := by
        rw [List.cons_append, List.cons.injEq] at shape
        rw [shape.2]
        exact List.mem_append_right _ List.mem_cons_self
      exact ((List.mem_append.mp member).elim (loop.cut_last permit) unseen).elim
    | nil =>
      rw [List.nil_append, List.cons.injEq] at shape
      obtain ⟨rfl, rfl⟩ := shape
      have count := congrArg List.length parts
      have none : granted rest = [] := (loop.aside (fun _ => Option.none)).1
      have step : released (⟨.release permit, .error .cancelled⟩ :: rest) = permit :: released rest := rfl
      rw [whole, List.append_nil, step, List.length_reverse, List.length_map, List.length_cons, holding.held,
        List.length_reverse] at count
      rw [released_append, holding.kept, granted_append, none, List.append_nil, List.nil_append, count]

theorem ended_noLeak (ended : Finished past) (nothing : NothingLost lost past) (last : LastOnly past) :
    NoLeak lost past := by
  obtain ⟨newer, older, s, rfl, holding, loop⟩ := ended
  intro permit member
  rw [grants_perm.mem_iff, nothing.none, List.append_nil, granted_append, (loop.aside lost).1,
    List.nil_append, ← List.mem_reverse, ← List.map_reverse, ← holding.held, loop.all holding last,
    List.mem_reverse] at member
  rw [released_append]
  exact List.mem_append_left _ member

theorem ended_onlyThen (ended : Finished past) (distinct : (grants lost past).Nodup)
    (noLeak : NoLeak lost past) : NothingLost lost past ∧ LastOnly past := by
  obtain ⟨newer, older, s, rfl, holding, loop⟩ := ended
  obtain ⟨rest, parts, _⟩ := loop.first
  have known : (granted (newer ++ older)).map Prod.snd = (s.held.map Prod.snd).reverse := by
    rw [granted_append, (loop.aside lost).1, List.nil_append, holding.held, List.map_reverse, List.reverse_reverse]
  rw [grants_perm.nodup_iff, known, List.nodup_append, List.nodup_reverse] at distinct
  have given (permit : Permit) (member : permit ∈ grants lost (newer ++ older)) : permit ∈ released newer := by
    have back := noLeak permit member
    rwa [released_append, holding.kept, List.append_nil] at back
  refine ⟨fun origin jobId e asked => ?_, loop.last_only holding distinct.1 fun permit member => given permit ?_⟩
  · cases kept : lost ⟨.acquire origin jobId, .error e⟩ with
    | none => rfl
    | some permit =>
      have isLost := lost_mem asked kept
      have back := given permit (grants_perm.mem_iff.mpr (List.mem_append_right _ isLost))
      have held : permit ∈ s.held.map Prod.snd := by
        rw [parts]
        exact List.mem_append_left _ (List.mem_reverse.mpr back)
      exact absurd rfl (distinct.2.2 permit (List.mem_reverse.mpr held) permit isLost)
  · rw [grants_perm.mem_iff, known]
    exact List.mem_append_left _ (List.mem_reverse.mpr member)

end Endings

/-- A fetch that has ended gave back every permit if none was granted by an acquisition that ended
with an exception and no cancellation came before its last release; and with distinct permits,
only then. -/
theorem permits_given_back_iff (tools : FetchTools) (f : SafeFetcher) (request : FetchRequest)
    (denylist : Denylist) (lost : Exchange → Option Permit) {past : List Exchange}
    {outcome : Except FetchRaise FetchResult × FetchState}
    (run : (f.fetch tools request { denylist }).Run past (.done outcome)) :
    (NothingLost lost past ∧ LastOnly past → NoLeak lost past) ∧
      ((grants lost past).Nodup → NoLeak lost past → NothingLost lost past ∧ LastOnly past) := by
  have safe : (f.fetch tools request).Safe (fun _ _ => True) (fun past _ _ => Finished past) [] { denylist } :=
    fetch_ended denylist
  have ended : Finished past := Script.Safe.run safe run
  exact ⟨fun only => ended_noLeak ended only.1 only.2, ended_onlyThen ended⟩

/-- A redirect from one site to another. -/
def twoSites : FetchTools where
  urlsplit := fun url =>
    if url = "https://a.ua/" then .ok ⟨"https", "a.ua", "/", "", ""⟩
    else if url = "https://b.ua/" then .ok ⟨"https", "b.ua", "/", "", ""⟩
    else .error "unknown"
  hostname := fun parts => some parts.netloc
  port := fun _ => .ok none
  username := fun _ => none
  password := fun _ => none
  urlunsplit := fun parts => parts.scheme ++ "://" ++ parts.netloc ++ parts.path
  urljoin := fun _ location => .ok location
  idnaEncode := fun host => .ok host
  lower := id
  ipAddress := fun text => if text = "93.184.216.34" then some (.v4 (ipv4 93 184 216 34)) else none
  compile := fun _ => none
  target := fun url => if url = "https://a.ua/" then some ("a.ua", 443) else some ("b.ua", 443)
  parsedate := fun _ => .refused
  redact := id

/-- The first site redirects to the second; `cut` cancels the release of its permit. -/
def redirecting (cut : Bool) (_ : List Exchange) : (q : FetchQuestion) → FetchAnswer q
  | .clock => (0 : ℚ)
  | .now => (0 : Int)
  | .denylist _ => DenylistFile.missing
  | .resolve _ _ => .ok ["93.184.216.34"]
  | .acquire origin _ => .ok (.inl ⟨if origin = "https://a.ua" then 1 else 2, origin, seconds 90⟩)
  | .send r => .ok ⟨if r.url = "https://a.ua/" then 302 else 200,
      fun name => if name = "location" then some "https://b.ua/" else none⟩
  | .readBody _ _ => .ok ⟨[], 0, 0, false⟩
  | .close => .ok ()
  | .closeClient => .ok ()
  | .block _ _ _ => .ok ()
  | .release permit => if cut ∧ permit.permitId = 1 then .error .cancelled else .ok ()

/-- The whole fetch. -/
def redirected (cut : Bool) :=
  (sampleFetcher.fetch twoSites { url := "https://a.ua/" } {}).replay (redirecting cut) 40 []

theorem redirected_run (cut : Bool) : ∃ outcome,
    (sampleFetcher.fetch twoSites { url := "https://a.ua/" } {}).Run (redirected cut).1 (.done outcome) := by
  have ended : (redirected cut).2.result.isSome = true := by
    cases cut <;> decide +kernel
  have ran : (sampleFetcher.fetch twoSites { url := "https://a.ua/" } {}).Run (redirected cut).1
      (redirected cut).2 := Script.run_replay .nil 40
  obtain ⟨outcome, result⟩ := Option.isSome_iff_exists.mp ended
  exact ⟨outcome, Script.eq_done_of_result result ▸ ran⟩

def cutIn : Exchange → Bool
  | ⟨.release _, .error .cancelled⟩ => true
  | _ => false

theorem lastOnly_of_uncut {past : List Exchange} (uncut : past.any cutIn = false) : LastOnly past := by
  intro newer permit older shape
  rw [shape, List.any_append, List.any_cons, Bool.or_eq_false_iff, Bool.or_eq_false_iff] at uncut
  exact Bool.noConfusion uncut.2.1

theorem redirected_given_back : ∃ past outcome,
    (sampleFetcher.fetch twoSites { url := "https://a.ua/" } {}).Run past (.done outcome) ∧
      (grants (fun _ => none) past).length = 2 ∧ NoLeak (fun _ => none) past := by
  obtain ⟨outcome, run⟩ := redirected_run false
  have uncut : (redirected false).1.any cutIn = false := by decide +kernel
  have count : (grants (fun _ => none) (redirected false).1).length = 2 := by decide +kernel
  have back := permits_given_back_iff twoSites sampleFetcher { url := "https://a.ua/" } {}
    (fun _ => none) run
  exact ⟨_, outcome, run, count, back.1 ⟨fun _ _ _ _ => rfl, lastOnly_of_uncut uncut⟩⟩

/-- A cancellation in the first of two releases: the second permit is not given back. -/
theorem cancelled_release_leaks : ∃ past outcome,
    (sampleFetcher.fetch twoSites { url := "https://a.ua/" } {}).Run past (.done outcome) ∧
      ¬NoLeak (fun _ => none) past := by
  obtain ⟨outcome, run⟩ := redirected_run true
  refine ⟨_, outcome, run, fun noLeak => ?_⟩
  have granted : (⟨2, "https://b.ua", seconds 90⟩ : Permit) ∈ grants (fun _ => none) (redirected true).1 := by
    decide +kernel
  have kept : (⟨2, "https://b.ua", seconds 90⟩ : Permit) ∉ released (redirected true).1 := by
    decide +kernel
  exact kept (noLeak _ granted)

end Collector.Fetch
