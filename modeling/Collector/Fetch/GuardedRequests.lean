import Collector.Fetch.Client
import Mathlib.Tactic.Linarith

/-!
Every request of a fetch is guarded, pinned and permitted, whatever the network, the resolver and
the limiter answer. The statements are about the exchanges of a run, the newest first: what went
out, which permits were granted and given back, and what the clocks read last.
-/

namespace Collector.Fetch
open Collector.Lib Collector.Persistence

abbrev Exchange := Sigma FetchAnswer

def sentIn : Exchange → Option SentRequest
  | ⟨.send r, _⟩ => some r
  | _ => none

/-- The requests that went out. -/
def sent (past : List Exchange) : List SentRequest := past.filterMap sentIn

def grantedIn : Exchange → Option (String × Permit)
  | ⟨.acquire origin _, .ok (.inl permit)⟩ => some (origin, permit)
  | _ => none

def granted (past : List Exchange) : List (String × Permit) := past.filterMap grantedIn

def releasedIn : Exchange → Option Permit
  | ⟨.release permit, _⟩ => some permit
  | _ => none

def released (past : List Exchange) : List Permit := past.filterMap releasedIn

def respondedIn : Exchange → Option (SentRequest × Response)
  | ⟨.send r, .ok response⟩ => some (r, response)
  | _ => none

def nowIn : Exchange → Option Time
  | ⟨.now, t⟩ => some t
  | _ => none

def clockIn : Exchange → Option ℚ
  | ⟨.clock, t⟩ => some t
  | _ => none

/-- The exchanges since the last request. -/
def thisHop (past : List Exchange) : List Exchange := past.takeWhile fun e => (sentIn e).isNone

section
variable (tools : FetchTools) (f : SafeFetcher) (request : FetchRequest)

/-- The URL a hop begins with: the one asked for, or the target of the last redirect. -/
def HopUrl (past : List Exchange) (url : String) : Prop :=
  match past.findSome? respondedIn with
  | none => url = request.url
  | some (r, response) =>
    response.status ∈ redirectStatuses ∧
      nextUrl tools r.url ((response.header "location").getD "") = .ok url

def IsHttps (url : String) : Prop := ∃ parts, tools.urlsplit url = .ok parts ∧ parts.scheme = "https"

def IsHttp (url : String) : Prop := ∃ parts, tools.urlsplit url = .ok parts ∧ parts.scheme = "http"

/-- The total timeout of the request, in force from the first reading of the clock. -/
def SafeFetcher.deadline (past : List Exchange) : Option ℚ :=
  (past.getLast?.bind clockIn).map (· + (given request.totalTimeout).getD f.config.totalTimeout)

/-- The guard accepted the URL on this hop, with the denylist as it was read on this hop. -/
def GuardAccepted (past : List Exchange) (url : String) : Prop :=
  ∃ text kept file guarded list, HopUrl tools request past text ∧
    f.guard.check tools.toUrlTools tools.compile kept file text = .ok (guarded, list) ∧ guarded.url = url ∧
    ∀ path, f.guard.denylist = some path → (⟨.denylist path, file⟩ : Exchange) ∈ thisHop past

/-- A permit of the URL's origin is held, and its lease outlives what is left of the deadline. -/
def Permitted (past : List Exchange) (url : String) : Prop :=
  ∃ origin permit now clock deadline, normalizeOrigin tools.toUrlTools url = .ok origin ∧
    (origin, permit) ∈ granted past ∧ permit ∉ released past ∧
    past.findSome? nowIn = some now ∧ past.findSome? clockIn = some clock ∧
    f.deadline request past = some deadline ∧
    max (deadline - clock) 0 + 1 ≤ ((permit.leaseExpiresAt - now : Int) : ℚ) / 1000000

structure RequestOk (past : List Exchange) (r : SentRequest) : Prop where
  guarded : GuardAccepted tools f request past r.url
  pinned : forbiddenReason r.address = none
  permitted : Permitted tools f request past r.url
  bounded : (sent past).length < (f.config.maxRedirects + 1).toNat
  secure : (∃ earlier ∈ sent past, IsHttps tools earlier.url) → ¬IsHttp tools r.url

def SendsOk (past : List Exchange) : FetchQuestion → Prop
  | .send r => RequestOk tools f request past r
  | _ => True

end

theorem scheme_cases {scheme : String} (known : (defaultPort scheme).isSome) :
    scheme = "http" ∨ scheme = "https" := by
  unfold defaultPort at known
  split_ifs at known with http https
  · exact .inl http
  · exact .inr https
  · cases known

section Schemes
variable {tools : FetchTools} {f : SafeFetcher} (laws : tools.toUrlTools.Lawful)
include laws

/-- The guard keeps the scheme of the URL it is given. -/
theorem inspect_scheme {url : String} {guarded : GuardedUrl}
    (admitted : f.guard.inspect tools.toUrlTools url = .ok guarded) :
    ∃ parts again, tools.urlsplit url = .ok parts ∧ tools.urlsplit guarded.url = .ok again ∧
      again.scheme = parts.scheme ∧ (parts.scheme = "http" ∨ parts.scheme = "https") := by
  obtain ⟨parts, again, split, known, normal, splitAgain⟩ := RouteGuard.inspect_eq_ok admitted
  obtain ⟨stripped, netloc, path, query, splitStripped, shape⟩ := normalizeUrl_eq_ok normal
  rw [laws.lower_scheme url parts split] at known
  have scheme := scheme_cases known
  have named : parts.scheme ≠ "" := by
    rcases scheme with http | https
    · rw [http]
      decide
    · rw [https]
      decide
  have same := laws.split_strip url parts stripped split named splitStripped
  have lower : tools.lower stripped.scheme = parts.scheme :=
    (laws.lower_scheme _ stripped splitStripped).trans same
  have rebuilt := splitAgain
  rw [shape, lower] at rebuilt
  have kept := laws.split_unsplit ⟨parts.scheme, netloc, path, query, ""⟩ again known rebuilt
  exact ⟨parts, again, split, splitAgain, kept, scheme⟩

/-- A redirect from an https URL does not lead to an http one. -/
theorem nextUrl_secure {current location text : String} {parts : SplitResult}
    (joined : nextUrl tools current location = .ok text) (https : IsHttps tools current)
    (split : tools.urlsplit text = .ok parts) : parts.scheme ≠ "http" := by
  obtain ⟨now, current_, secure⟩ := https
  simp only [nextUrl, Except.bind_eq_ok, Except.mapError_eq_ok, ensure_eq_ok, decide_eq_true_eq] at joined
  obtain ⟨target, _, there, splitTarget, here, splitHere, _, allowed, same⟩ := joined
  cases same
  rw [current_] at splitHere
  cases splitHere
  have kept := laws.unsplit_split target there parts splitTarget split
  have lower := laws.lower_scheme target there splitTarget
  intro http
  apply allowed
  rw [lower, ← kept]
  exact ⟨secure, http⟩

end Schemes

/-- Not a request and not a release. -/
def FetchQuestion.quiet : FetchQuestion → Bool
  | .send _ => false
  | .release _ => false
  | _ => true

section Loop
variable (tools : FetchTools) (f : SafeFetcher) (request : FetchRequest)

/-- At the head of the loop and through a hop, up to its request: `text` is the hop's URL. -/
structure InHop (deadline : ℚ) (sends : Nat) (text : String) (past : List Exchange) (s : FetchState) :
    Prop where
  count : (sent past).length = sends
  began : f.deadline request past = some deadline
  kept : released past = []
  held : ∀ entry ∈ s.held, entry ∈ granted past
  pins : ∀ entry ∈ s.pins, forbiddenReason entry.2 = none
  hop : HopUrl tools request past text
  secure : (∃ r ∈ sent past, IsHttps tools r.url) →
    ∃ r response, past.findSome? respondedIn = some (r, response) ∧ IsHttps tools r.url

/-- The guard's verdict on this hop. -/
def Checked (text : String) (guarded : GuardedUrl) (past : List Exchange) : Prop :=
  ∃ kept file list, f.guard.check tools.toUrlTools tools.compile kept file text = .ok (guarded, list) ∧
    ∀ path, f.guard.denylist = some path → (⟨.denylist path, file⟩ : Exchange) ∈ thisHop past

/-- The facts of a hop once its URL is guarded. -/
def Underway (deadline : ℚ) (sends : Nat) (text : String) (guarded : GuardedUrl) (past : List Exchange)
    (s : FetchState) : Prop :=
  InHop tools f request deadline sends text past s ∧ Checked tools f text guarded past

variable {tools f request} {deadline : ℚ} {sends : Nat} {text : String} {past : List Exchange}
  {s : FetchState}

theorem sentIn_quiet {q : FetchQuestion} (a : FetchAnswer q) (quiet : q.quiet = true) :
    sentIn ⟨q, a⟩ = none := by
  cases q <;> first | rfl | cases quiet

theorem respondedIn_quiet {q : FetchQuestion} (a : FetchAnswer q) (quiet : q.quiet = true) :
    respondedIn ⟨q, a⟩ = none := by
  cases q <;> first | rfl | cases quiet

theorem releasedIn_quiet {q : FetchQuestion} (a : FetchAnswer q) (quiet : q.quiet = true) :
    releasedIn ⟨q, a⟩ = none := by
  cases q <;> first | rfl | cases quiet

theorem deadline_cons {e : Exchange} (began : f.deadline request past = some deadline) :
    f.deadline request (e :: past) = some deadline := by
  cases past with
  | nil => simp [SafeFetcher.deadline] at began
  | cons first rest => simpa [SafeFetcher.deadline] using began

theorem InHop.quiet (inHop : InHop tools f request deadline sends text past s) {q : FetchQuestion}
    (a : FetchAnswer q) (quiet : q.quiet = true) :
    InHop tools f request deadline sends text (⟨q, a⟩ :: past) s where
  count := by
    simp [sent, sentIn_quiet a quiet, ← inHop.count]
  began := deadline_cons inHop.began
  kept := by
    have kept := inHop.kept
    simp [released, releasedIn_quiet a quiet] at kept ⊢
    exact kept
  held := by
    intro entry member
    simp only [granted, List.filterMap_cons]
    split
    · exact inHop.held entry member
    · exact List.mem_cons_of_mem _ (inHop.held entry member)
  pins := inHop.pins
  hop := by
    have hop := inHop.hop
    simp only [HopUrl, List.findSome?_cons, respondedIn_quiet a quiet] at hop ⊢
    exact hop
  secure := by
    have secure := inHop.secure
    simp only [sent, List.filterMap_cons, sentIn_quiet a quiet, List.findSome?_cons,
      respondedIn_quiet a quiet] at secure ⊢
    exact secure

theorem Checked.quiet {guarded : GuardedUrl} (checked : Checked tools f text guarded past)
    {q : FetchQuestion} (a : FetchAnswer q) (quiet : q.quiet = true) :
    Checked tools f text guarded (⟨q, a⟩ :: past) := by
  obtain ⟨kept, file, list, accepted, fresh⟩ := checked
  refine ⟨kept, file, list, accepted, fun path given => ?_⟩
  simp only [thisHop, List.takeWhile_cons, sentIn_quiet a quiet, Option.isNone_none, if_true]
  exact List.mem_cons_of_mem _ (fresh path given)

theorem sendsOk_quiet {q : FetchQuestion} (quiet : q.quiet = true) : SendsOk tools f request past q := by
  cases q <;> trivial

/-- A fact that exchanges without a request and without a release leave true. -/
def Stable (X : List Exchange → FetchState → Prop) : Prop :=
  ∀ past s (q : FetchQuestion) (a : FetchAnswer q), q.quiet = true → X past s → X (⟨q, a⟩ :: past) s

theorem stable_inHop : Stable (InHop tools f request deadline sends text) :=
  fun _ _ _ a quiet inHop => inHop.quiet a quiet

theorem stable_underway {guarded : GuardedUrl} :
    Stable (Underway tools f request deadline sends text guarded) :=
  fun _ _ _ a quiet underway => ⟨underway.1.quiet a quiet, underway.2.quiet a quiet⟩

section Quiet
variable {X : List Exchange → FetchState → Prop} (stable : Stable X)
include stable

theorem checkDeadline_safe (now : X past s) : (SafeFetcher.checkDeadline deadline).Safe
    (SendsOk tools f request) (fun past _ s => X past s) past s := by
  rw [SafeFetcher.checkDeadline, Act.safe_ask]
  refine ⟨trivial, fun clock => ?_⟩
  split
  · exact stable _ _ _ _ rfl now
  · exact stable _ _ _ _ rfl now

theorem resolvePinned_safe {host : String} {port : Nat} (now : X past s) :
    (SafeFetcher.resolvePinned tools host port).Safe (SendsOk tools f request)
      (fun past r s => X past s ∧ ∀ address, r = .ok address → forbiddenReason address = none) past s := by
  rw [SafeFetcher.resolvePinned]
  apply Act.safe_ofExcept
  · intro e _
    exact ⟨now, nofun⟩
  intro literal resolved
  rw [Except.mapError_eq_ok] at resolved
  cases literal with
  | some ip =>
    refine ⟨now, fun address same => ?_⟩
    cases same
    exact resolveLiteral_allowed resolved
  | none =>
    rw [Act.safe_ask]
    refine ⟨trivial, fun answers => ?_⟩
    have asked := stable _ _ (.resolve host port) answers rfl now
    apply Act.safe_ofExcept
    · intro e _
      exact ⟨asked, nofun⟩
    intro answers _
    split
    · exact ⟨asked, nofun⟩
    apply Act.safe_ofExcept
    · intro e _
      exact ⟨asked, nofun⟩
    intro pinned answer
    rw [Except.mapError_eq_ok] at answer
    cases pinned with
    | none => exact ⟨asked, nofun⟩
    | some ip =>
      refine ⟨asked, fun address same => ?_⟩
      cases same
      exact pinAnswer_allowed answer

end Quiet

/-- A check that passed the denylist read now, or that has none. -/
theorem checkGuard_safe (inHop : InHop tools f request deadline sends text past s) :
    (f.checkGuard tools text).Safe (SendsOk tools f request)
      (fun past r s => ∀ guarded, r = .ok guarded → Underway tools f request deadline sends text guarded past s)
      past s := by
  rw [SafeFetcher.checkGuard]
  apply Act.safe_ofExcept
  · exact fun _ _ => nofun
  intro guarded admitted
  rw [Except.mapError_eq_ok] at admitted
  cases path : f.guard.denylist with
  | none =>
    apply Act.safe_ofExcept
    · exact fun _ _ => nofun
    intro _ routed
    rw [Except.mapError_eq_ok] at routed
    intro same result
    cases result
    refine ⟨inHop, s.denylist, .missing, s.denylist, ?_, fun _ given => by simp [path] at given⟩
    simp [RouteGuard.check, RouteGuard.listed, path, admitted, routed, bind, Except.bind, pure, Except.pure]
  | some given =>
    rw [Act.safe_ask]
    refine ⟨trivial, fun file => ?_⟩
    have asked := inHop.quiet file (q := .denylist given) rfl
    rw [Act.safe_get]
    apply Act.safe_ofExcept
    · exact fun _ _ => nofun
    intro list loaded
    rw [Except.mapError_eq_ok] at loaded
    rw [Act.safe_modify]
    apply Act.safe_ofExcept
    · exact fun _ _ => nofun
    intro _ passed
    rw [Except.mapError_eq_ok] at passed
    apply Act.safe_ofExcept
    · exact fun _ _ => nofun
    intro _ routed
    rw [Except.mapError_eq_ok] at routed
    intro same result
    cases result
    refine ⟨{ asked with }, s.denylist, file, list, ?_, ?_⟩
    · simp [RouteGuard.check, RouteGuard.listed, path, admitted, loaded, passed, routed, bind,
        Except.bind, pure, Except.pure]
    · intro other same
      cases path.symm.trans same
      simp [thisHop, sentIn]

/-- A refusal of the limiter sends nothing. -/
theorem denied_safe (d : Denied) (redirected : Bool) :
    (SafeFetcher.denied tools request d redirected).Safe (SendsOk tools f request) (fun _ _ _ => True) past s := by
  rw [SafeFetcher.denied]
  split
  · trivial
  · cases d.retryAfter with
    | none => trivial
    | some at_ => exact ⟨trivial, fun _ => trivial⟩

theorem permitFor_safe {guarded : GuardedUrl} {origin : String} {redirected : Bool}
    (underway : Underway tools f request deadline sends text guarded past s) :
    (SafeFetcher.permitFor tools request origin redirected).Safe (SendsOk tools f request)
      (fun past r s => ∀ permit, r = .ok (.inr permit) →
        Underway tools f request deadline sends text guarded past s ∧ (origin, permit) ∈ s.held) past s := by
  rw [SafeFetcher.permitFor, Act.safe_get]
  cases held : s.held.lookup origin with
  | some permit =>
    intro same result
    cases result
    obtain ⟨_, _, shape, _⟩ := List.lookup_eq_some_iff.mp held
    refine ⟨underway, ?_⟩
    rw [shape]
    exact List.mem_append_right _ List.mem_cons_self
  | none =>
    rw [Act.safe_ask]
    refine ⟨trivial, fun answer => ?_⟩
    apply Act.safe_ofExcept
    · exact fun _ _ => nofun
    intro decision granted
    cases decision with
    | inr d =>
      exact (denied_safe d redirected).andThen (fun _ _ _ _ => nofun) (fun _ _ _ _ => nofun)
    | inl permit =>
      rw [Act.safe_modify]
      intro same result
      cases result
      refine ⟨⟨?_, underway.2.quiet _ rfl⟩, by simp⟩
      have asked := underway.1.quiet answer (q := .acquire origin request.jobId) rfl
      cases granted
      refine { asked with held := ?_ }
      intro entry member
      rcases List.mem_append.mp member with known | new
      · exact asked.held entry known
      · rw [List.mem_singleton.mp new]
        simp [Fetch.granted, grantedIn]

/-- The lease as the two clocks were read for it. -/
def LeaseOutlives (deadline : ℚ) (permit : Permit) (past : List Exchange) : Prop :=
  ∃ now clock, past.findSome? nowIn = some now ∧ past.findSome? clockIn = some clock ∧
    max (deadline - clock) 0 + 1 ≤ ((permit.leaseExpiresAt - now : Int) : ℚ) / 1000000

theorem leaseTooShort_safe {guarded : GuardedUrl} {permit : Permit}
    (underway : Underway tools f request deadline sends text guarded past s) :
    (SafeFetcher.leaseTooShort deadline permit).Safe (SendsOk tools f request)
      (fun past r s' => s' = s ∧ Underway tools f request deadline sends text guarded past s ∧
        (r = .ok false → LeaseOutlives deadline permit past)) past s := by
  rw [SafeFetcher.leaseTooShort, Act.safe_ask]
  refine ⟨trivial, fun now => ?_⟩
  rw [Act.safe_ask]
  refine ⟨trivial, fun clock => ?_⟩
  have asked := stable_underway _ _ (.now) now rfl underway
  refine ⟨rfl, stable_underway _ _ (.clock) clock rfl asked, fun enough => ⟨now, clock, rfl, rfl, ?_⟩⟩
  have enough := Except.ok.inj enough
  rw [decide_eq_false_iff_not, not_lt] at enough
  exact enough

/-- Once a request went to an https URL, so do all later ones. -/
theorem secure_of_earlier {guarded : GuardedUrl} (laws : tools.toUrlTools.Lawful)
    (underway : Underway tools f request deadline sends text guarded past s)
    (earlier : ∃ r ∈ sent past, IsHttps tools r.url) : IsHttps tools guarded.url := by
  obtain ⟨inHop, kept, file, list, accepted, _⟩ := underway
  obtain ⟨previous, response, found, https⟩ := inHop.secure earlier
  have hop := inHop.hop
  rw [HopUrl, found] at hop
  obtain ⟨parts, again, split, splitAgain, same, known⟩ :=
    inspect_scheme laws (RouteGuard.inspect_of_check accepted)
  have notHttp := nextUrl_secure laws hop.2 https split
  exact ⟨again, splitAgain, same.trans (known.resolve_left notHttp)⟩

/-- The hop's request: everything it needs is there. -/
theorem requestOk {guarded : GuardedUrl} {origin : String} {permit : Permit} {r : SentRequest}
    (laws : tools.toUrlTools.Lawful) (underway : Underway tools f request deadline sends text guarded past s)
    (named : normalizeOrigin tools.toUrlTools guarded.url = .ok origin) (held : (origin, permit) ∈ s.held)
    (lease : LeaseOutlives deadline permit past) (room : sends < (f.config.maxRedirects + 1).toNat)
    (url : r.url = guarded.url) (allowed : forbiddenReason r.address = none) :
    RequestOk tools f request past r := by
  obtain ⟨inHop, kept, file, list, accepted, fresh⟩ := underway
  obtain ⟨now, clock, lastNow, lastClock, outlives⟩ := lease
  refine ⟨⟨text, kept, file, guarded, list, inHop.hop, accepted, url.symm, fresh⟩, allowed, ?_, ?_, ?_⟩
  · exact ⟨origin, permit, now, clock, deadline, url ▸ named, inHop.held _ held, by simp [inHop.kept],
      lastNow, lastClock, inHop.began, outlives⟩
  · rw [inHop.count]
    exact room
  · intro earlier http
    obtain ⟨parts, split, https⟩ := secure_of_earlier laws ⟨inHop, kept, file, list, accepted, fresh⟩ earlier
    obtain ⟨again, splitAgain, http⟩ := http
    rw [url, split] at splitAgain
    cases splitAgain
    rw [https] at http
    exact absurd http (by decide)

/-- The pinned address is one that was checked. -/
theorem allowed_of_pinned {host : String} {port : Nat} {address : IpAddress}
    (pins : ∀ entry ∈ s.pins, forbiddenReason entry.2 = none)
    (found : pinned tools host port s = some address) : forbiddenReason address = none := by
  rw [pinned, Option.map_eq_some_iff] at found
  obtain ⟨entry, found, same⟩ := found
  rw [← same]
  exact pins entry (List.mem_of_find?_eq_some found)

theorem send_safe {url : String} {hop : Nat} (pins : ∀ entry ∈ s.pins, forbiddenReason entry.2 = none)
    (ready : ∀ r : SentRequest, r.url = url → forbiddenReason r.address = none →
      RequestOk tools f request past r) :
    (f.send tools request url hop).Safe (SendsOk tools f request)
      (fun past' r s' => s' = s ∧ ∀ response, r = .ok response →
        ∃ r : SentRequest, r.url = url ∧ past' = ⟨.send r, .ok response⟩ :: past) past s := by
  rw [SafeFetcher.send]
  cases tools.target url with
  | none => exact ⟨rfl, nofun⟩
  | some place =>
    rw [Act.safe_get]
    cases found : pinned tools place.1 place.2 s with
    | none => exact ⟨rfl, nofun⟩
    | some address =>
      rw [Act.safe_ask]
      refine ⟨ready _ rfl (allowed_of_pinned pins found), fun answer => ?_⟩
      cases answer with
      | error e => exact ⟨rfl, nofun⟩
      | ok response =>
        refine ⟨rfl, fun same result => ?_⟩
        cases result
        exact ⟨_, rfl, rfl⟩

/-- The next hop after a redirect of this one. -/
theorem InHop.next {guarded : GuardedUrl} {r : SentRequest} {response : Response} {url : String}
    (laws : tools.toUrlTools.Lawful) (underway : Underway tools f request deadline sends text guarded past s)
    (same : r.url = guarded.url) (redirect : response.status ∈ redirectStatuses)
    (target : nextUrl tools guarded.url ((response.header "location").getD "") = .ok url) :
    InHop tools f request deadline (sends + 1) url (⟨.send r, .ok response⟩ :: past) s where
  count := by
    simp [sent, sentIn, ← underway.1.count]
  began := deadline_cons underway.1.began
  kept := by
    have kept := underway.1.kept
    simp only [released, List.filterMap_cons, releasedIn] at kept ⊢
    exact kept
  held := by
    intro entry member
    simp only [granted, List.filterMap_cons, grantedIn]
    exact underway.1.held entry member
  pins := underway.1.pins
  hop := by
    rw [HopUrl, List.findSome?_cons]
    exact ⟨redirect, same ▸ target⟩
  secure := by
    intro earlier
    refine ⟨r, response, rfl, ?_⟩
    simp only [sent, List.filterMap_cons, sentIn, List.mem_cons, exists_eq_or_imp] at earlier
    rcases earlier with https | earlier
    · exact https
    · rw [same]
      exact secure_of_earlier laws underway earlier

theorem readResponse_safe {response : Response} {limits : BodyLimits} {now : Time} :
    (SafeFetcher.readResponse tools request response limits now).Safe (SendsOk tools f request)
      (fun _ _ _ => True) past s := by
  rw [SafeFetcher.readResponse, Act.safe_ask]
  refine ⟨trivial, fun read => ?_⟩
  split
  · trivial
  · trivial
  · trivial
  · split
    · trivial
    · trivial

/-- Reading a response sends nothing. -/
theorem complete_safe {response : Response} {origin : String} :
    (f.complete tools request response origin).Safe (SendsOk tools f request) (fun _ _ _ => True) past s := by
  rw [SafeFetcher.complete, Act.safe_ask]
  refine ⟨trivial, fun now => ?_⟩
  split
  · split
    · trivial
    · rw [SafeFetcher.blockOrigin]
      split
      · refine ⟨trivial, fun blocked => ?_⟩
        cases blocked <;> trivial
      · trivial
  split
  · trivial
  · dsimp only
    split
    · trivial
    · trivial
    · exact readResponse_safe

theorem afterResponse_safe {guarded : GuardedUrl} {origin : String} {address : IpAddress}
    {r : SentRequest} {response : Response} (laws : tools.toUrlTools.Lawful)
    (underway : Underway tools f request deadline sends text guarded past s) (same : r.url = guarded.url) :
    (f.afterResponse tools request response guarded origin address).Safe (SendsOk tools f request)
      (fun past r s => ∀ url, r = .ok (.inr url) → InHop tools f request deadline (sends + 1) url past s)
      (⟨.send r, .ok response⟩ :: past) s := by
  rw [SafeFetcher.afterResponse, Act.safe_modify]
  dsimp only
  split
  · rename_i redirect
    apply Act.safe_map
    cases target : nextUrl tools guarded.url ((response.header "location").getD "") with
    | error e => exact nofun
    | ok url =>
      intro next result
      cases result
      exact { InHop.next laws underway same redirect.1 target with }
  · apply Act.safe_map
    apply Act.Safe.mono complete_safe
    intro past r s _ url result
    cases r <;> cases result

/-- From any hop on, every request is in order. -/
theorem run_safe (laws : tools.toUrlTools.Lawful) (left hop : Nat)
    (inHop : InHop tools f request deadline sends text past s)
    (room : sends + left = (f.config.maxRedirects + 1).toNat) :
    (f.run tools request deadline left hop text).Safe (SendsOk tools f request) (fun _ _ _ => True) past s := by
  induction left generalizing hop sends text past s with
  | zero => trivial
  | succ left ih =>
    rw [SafeFetcher.run]
    apply (checkDeadline_safe stable_inHop inHop).andThen (fun _ _ _ _ => trivial)
    intro past _ s inHop
    apply (checkGuard_safe inHop).andThen (fun _ _ _ _ => trivial)
    intro past guarded s underway
    have underway := underway guarded rfl
    apply Act.safe_ofExcept (fun _ _ => trivial)
    intro origin named
    rw [Except.mapError_eq_ok] at named
    apply (resolvePinned_safe stable_underway underway).andThen (fun _ _ _ _ => trivial)
    intro past address s ⟨underway, allowed⟩
    have allowed := allowed address rfl
    rw [Act.safe_modify]
    have pinned : Underway tools f request deadline sends text guarded past
        (pin tools guarded.host guarded.port address s) := by
      refine ⟨{ underway.1 with pins := ?_ }, underway.2⟩
      intro entry member
      rcases List.mem_cons.mp member with rfl | member
      · exact allowed
      · exact underway.1.pins entry member
    apply (permitFor_safe pinned).andThen (fun _ _ _ _ => trivial)
    intro past permitted s found
    cases permitted with
    | inl result => trivial
    | inr permit =>
      obtain ⟨underway, held⟩ := found permit rfl
      apply (leaseTooShort_safe underway).andThen (fun _ _ _ _ => trivial)
      intro past short s' ⟨same, underway, enough⟩
      subst same
      cases short with
      | true => trivial
      | false =>
        have ready : ∀ r : SentRequest, r.url = guarded.url → forbiddenReason r.address = none →
            RequestOk tools f request past r :=
          fun r => requestOk laws underway named held (enough rfl) (by omega)
        apply (send_safe underway.1.pins ready).andThen (fun _ _ _ _ => trivial)
        intro past' response s'' ⟨same, answered⟩
        subst same
        obtain ⟨r, url, rfl⟩ := answered response rfl
        apply Act.safe_attempt
        apply (afterResponse_safe laws underway url).mono
        intro past outcome s next
        rw [Act.safe_ask]
        refine ⟨trivial, fun closed => ?_⟩
        apply Act.safe_ofExcept (fun _ _ => trivial)
        intro _ _
        apply Act.safe_ofExcept (fun _ _ => trivial)
        intro target found
        cases target with
        | inl result => trivial
        | inr url => exact ih (hop + 1) ((next url found).quiet closed rfl) (by omega)

theorem releaseAll_safe (permits : List (String × Permit)) :
    (SafeFetcher.releaseAll permits).Safe (SendsOk tools f request) (fun _ _ _ => True) past s := by
  induction permits generalizing past s with
  | nil => trivial
  | cons first rest ih =>
    rw [SafeFetcher.releaseAll, Act.safe_ask]
    refine ⟨trivial, fun released => ?_⟩
    split
    · trivial
    · exact ih

theorem withClient_safe (laws : tools.toUrlTools.Lawful)
    (inHop : InHop tools f request deadline 0 request.url past s) :
    (f.withClient tools request deadline).Safe (SendsOk tools f request) (fun _ _ _ => True) past s := by
  rw [SafeFetcher.withClient]
  apply Act.safe_attempt
  apply (run_safe laws _ 0 inHop (by omega)).mono
  intro past outcome s _
  rw [Act.safe_ask]
  refine ⟨trivial, fun closed => ?_⟩
  apply Act.safe_ofExcept (fun _ _ => trivial)
  intro _ _
  cases outcome <;> trivial

theorem handled_safe (outcome : Except FetchRaise FetchResult) :
    (SafeFetcher.handled tools request outcome).Safe (SendsOk tools f request) (fun _ _ _ => True) past s := by
  unfold SafeFetcher.handled
  split
  · trivial
  · split
    · trivial
    · trivial

/-- Whatever happens, each request of a fetch is in order. -/
theorem fetch_safe (laws : tools.toUrlTools.Lawful) (denylist : Denylist) :
    (f.fetch tools request).Safe (SendsOk tools f request) (fun _ _ _ => True) [] { denylist } := by
  rw [SafeFetcher.fetch, Act.safe_ask]
  refine ⟨trivial, fun start => ?_⟩
  have begun : InHop tools f request (start + (given request.totalTimeout).getD f.config.totalTimeout) 0
      request.url [⟨.clock, start⟩] { denylist } :=
    ⟨rfl, rfl, rfl, nofun, nofun, rfl, by simp [sent, sentIn]⟩
  apply Act.safe_attempt
  apply (withClient_safe laws begun).mono
  intro past outcome s _
  apply Act.safe_attempt
  apply (handled_safe outcome).mono
  intro past outcome s _
  rw [Act.safe_get]
  apply (releaseAll_safe s.held).andThen (fun _ _ _ _ => trivial)
  intro past _ s _
  cases outcome <;> trivial

end Loop

/-- Every request of every run of a fetch is guarded, pinned and permitted, there are no more than
`max_redirects + 1` of them, and none goes back from https to http. -/
theorem requests_guarded_pinned_permitted (tools : FetchTools) (laws : tools.toUrlTools.Lawful)
    (f : SafeFetcher) (request : FetchRequest) (denylist : Denylist) {past : List Exchange}
    {left : Script FetchQuestion FetchAnswer (Except FetchRaise FetchResult × FetchState)}
    (run : (f.fetch tools request { denylist }).Run past left) :
    (sent past).length ≤ (f.config.maxRedirects + 1).toNat ∧
      ∀ r next, left = .ask (.send r) next → RequestOk tools f request past r := by
  have safe : (f.fetch tools request).Safe (SendsOk tools f request) (fun _ _ _ => True) [] { denylist } :=
    fetch_safe laws denylist
  have inOrder {past : List Exchange} {r : SentRequest}
      {next : FetchAnswer (.send r) → Script FetchQuestion FetchAnswer (Except FetchRaise FetchResult × FetchState)}
      (run : (f.fetch tools request { denylist }).Run past (.ask (.send r) next)) :
      RequestOk tools f request past r := (Script.Safe.run safe run).1
  refine ⟨?_, fun r next same => inOrder (same ▸ run)⟩
  induction run with
  | nil => exact Nat.zero_le _
  | @step past q next before a ih =>
    cases q with
    | send r => exact (inOrder before).bounded
    | _ => exact ih

/-- Two pages of one site, and a redirect from the first to the second. -/
def sampleTools : FetchTools where
  urlsplit := fun url =>
    if url = "https://a.ua/" then .ok ⟨"https", "a.ua", "/", "", ""⟩
    else if url = "https://a.ua/b" then .ok ⟨"https", "a.ua", "/b", "", ""⟩
    else .error "unknown"
  hostname := fun parts => some parts.netloc
  port := fun _ => .ok none
  username := fun _ => none
  password := fun _ => none
  urlunsplit := fun parts => parts.scheme ++ "://" ++ parts.netloc ++ parts.path
  urljoin := fun _ location => .ok ("https://a.ua" ++ location)
  idnaEncode := fun host => .ok host
  lower := id
  ipAddress := fun text => if text = "93.184.216.34" then some (.v4 (ipv4 93 184 216 34)) else none
  compile := fun _ => none
  target := fun _ => some ("a.ua", 443)
  parsedate := fun _ => .refused
  redact := id

theorem sampleTools_split {url : String} {parts : SplitResult} (split : sampleTools.urlsplit url = .ok parts) :
    parts.scheme = "https" ∧ (url = "https://a.ua/" ∨ url = "https://a.ua/b") := by
  simp only [sampleTools] at split
  split_ifs at split with first second
  · cases split
    exact ⟨rfl, .inl first⟩
  · cases split
    exact ⟨rfl, .inr second⟩

theorem sampleTools_lawful : sampleTools.toUrlTools.Lawful where
  unsplit_split := by
    intro url parts again split rebuilt
    rw [(sampleTools_split rebuilt).1, (sampleTools_split split).1]
  split_unsplit := by
    intro parts again known rebuilt
    obtain ⟨scheme, shape⟩ := sampleTools_split rebuilt
    rw [scheme]
    rcases scheme_cases known with http | https
    · have fifth : ("http" ++ "://" ++ parts.netloc ++ parts.path).toList[4]? = some ':' := by simp
      rcases shape with same | same
      · simp only [sampleTools, http] at same
        rw [same] at fifth
        exact absurd fifth (by decide)
      · simp only [sampleTools, http] at same
        rw [same] at fifth
        exact absurd fifth (by decide)
    · exact https.symm
  split_strip := by
    intro url parts again split _ stripped
    rw [(sampleTools_split stripped).1, (sampleTools_split split).1]
  lower_scheme := fun _ _ _ => rfl

def sampleWorld (_ : List Exchange) : (q : FetchQuestion) → FetchAnswer q
  | .clock => (0 : ℚ)
  | .now => (0 : Int)
  | .denylist _ => DenylistFile.missing
  | .resolve _ _ => .ok ["93.184.216.34"]
  | .acquire origin _ => .ok (.inl ⟨1, origin, seconds 90⟩)
  | .send r =>
    .ok ⟨if r.url = "https://a.ua/" then 302 else 200, fun name => if name = "location" then some "/b" else none⟩
  | .readBody _ _ => .ok ⟨[], 0, 0, false⟩
  | .close => .ok ()
  | .closeClient => .ok ()
  | .block _ _ _ => .ok ()
  | .release _ => .ok ()

def sampleFetcher : SafeFetcher := .make { userAgent := "test" }

/-- Just before the second request. -/
def sampleRun := (sampleFetcher.fetch sampleTools { url := "https://a.ua/" } {}).replay sampleWorld 12 []

theorem sample_requests_guarded : ∃ past r next,
    (sampleFetcher.fetch sampleTools { url := "https://a.ua/" } {}).Run past (.ask (.send r) next) ∧
      r.url = "https://a.ua/b" ∧ (sent past).length = 1 ∧
      RequestOk sampleTools sampleFetcher { url := "https://a.ua/" } past r := by
  have asks : sampleRun.2.question.any (fun q => match q with
      | .send r => decide (r.url = "https://a.ua/b")
      | _ => false) = true := by decide +kernel
  have count : (sent sampleRun.1).length = 1 := by decide +kernel
  have ran : (sampleFetcher.fetch sampleTools { url := "https://a.ua/" } {}).Run sampleRun.1 sampleRun.2 :=
    Script.run_replay .nil 12
  rw [Option.any_eq_true] at asks
  obtain ⟨q, asks, url⟩ := asks
  obtain ⟨next, shape⟩ := Script.eq_ask_of_question asks
  cases q with
  | send r =>
    have guarded := requests_guarded_pinned_permitted sampleTools sampleTools_lawful sampleFetcher
      { url := "https://a.ua/" } {} ran
    rw [shape] at ran
    exact ⟨_, r, next, ran, of_decide_eq_true url, count, guarded.2 r next shape⟩
  | _ => cases url

end Collector.Fetch
