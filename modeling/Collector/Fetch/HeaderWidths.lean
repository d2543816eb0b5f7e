import Collector.Fetch.GuardedRequests
import Collector.Fetch.RawCommits
import Collector.Fetch.ReaderCodes

/-!
Headers in columns. What a server puts into its headers is redacted, and then goes as it is into
columns of fixed widths, in the transaction that records the page.
-/

namespace Collector.Fetch
open Collector.Lib Collector.Persistence

/-- The columns of `fetches` that the limits are about. -/
def FetchRecord.columnsFit (record : FetchRecord) : Bool :=
  fits 256 record.contentType && fits 64 record.contentEncoding && fits 512 record.etag &&
    fits 128 record.lastModifiedRaw && fits 64 record.errorCode && fits 2048 record.errorMessage

section Response
variable (tools : FetchTools) (response : Response)

/-- A header as it is kept: redacted, and absent if empty. -/
def keptHeader (name : String) : Option String :=
  ((response.header name).filter (· ≠ "")).map tools.redact

/-- The redacted headers are no longer than their columns. -/
def headersFit : Bool :=
  fits 256 (keptHeader tools response "content-type") &&
    fits 64 (keptHeader tools response "content-encoding") &&
    fits 512 (keptHeader tools response "etag") && fits 128 (keptHeader tools response "last-modified")

/-- A result that the response went into. -/
structure Carries (fetched : FetchResult) : Prop where
  headers : fetched.headers = safeResponseHeaders.filterMap fun name =>
    (keptHeader tools response name).map fun value => (name, value)
  errorCode : fits 64 fetched.decision.errorCode = true
  reason : fits 2048 fetched.decision.reason = true

variable {tools response}

theorem lookup_kept_headers {names : List String} (distinct : names.Nodup)
    (value : String → Option String) {name : String} (listed : name ∈ names) :
    (names.filterMap fun name => (value name).map fun text => (name, text)).lookup name =
      value name := by
  induction names with
  | nil => cases listed
  | cons first names ih =>
    obtain ⟨fresh, distinct⟩ := List.nodup_cons.mp distinct
    rcases List.mem_cons.mp listed with rfl | later
    · cases here : value name with
      | some text => simp [here]
      | none =>
        simp only [List.filterMap_cons, here, Option.map_none]
        rw [List.lookup_eq_none_iff]
        intro entry member
        obtain ⟨other, among, same⟩ := List.mem_filterMap.mp member
        obtain ⟨text, _, rfl⟩ := Option.map_eq_some_iff.mp same
        have different : name ≠ other := by
          rintro rfl
          exact fresh among
        simpa using different
    · have different : name ≠ first := by
        rintro rfl
        exact fresh later
      cases here : value first with
      | none => simpa [List.filterMap_cons, here] using ih distinct later
      | some text =>
        have other : (name == first) = false := beq_eq_false_iff_ne.mpr different
        simpa [List.filterMap_cons, here, List.lookup_cons, other] using ih distinct later

theorem Carries.lookup {fetched : FetchResult} (carries : Carries tools response fetched)
    {name : String} (safe : name ∈ safeResponseHeaders) :
    fetched.headers.lookup name = keptHeader tools response name := by
  rw [carries.headers]
  exact lookup_kept_headers (by decide) _ safe

/-- The columns fit exactly if the headers do. -/
theorem Carries.columnsFit_iff {fetched : FetchResult} (carries : Carries tools response fetched)
    (task : Task) (url : String) (fetchedAt : Time) (rawSha256 variant : Option String) :
    (fetchRecord task url fetched fetchedAt rawSha256 variant).columnsFit =
      headersFit tools response := by
  simp only [FetchRecord.columnsFit, fetchRecord, headersFit, carries.errorCode, carries.reason,
    Bool.and_true]
  rw [carries.lookup (by decide), carries.lookup (by decide), carries.lookup (by decide),
    carries.lookup (by decide)]

end Response

section Completion
variable {tools : FetchTools} {f : SafeFetcher} {request : FetchRequest} {response : Response}

/-- The reader raised codes of its own only. -/
def ReaderCodes (past : List (Sigma FetchAnswer)) : Prop :=
  ∀ encoding limits code, (⟨.readBody encoding limits, .error (.bodyLimit code)⟩ :
    Sigma FetchAnswer) ∈ past → code ∈ quarantineErrors

/-- Results of `_complete` carry the response. -/
def CarriesResult (tools : FetchTools) (response : Response) :
    Act.Post FetchAnswer FetchState FetchRaise FetchResult :=
  fun past outcome _ => ReaderCodes past → ∀ fetched, outcome = .ok fetched →
    Carries tools response fetched

theorem fits_httpCode {status : Nat} (digits : status < 1000) {limit : Nat} (wide : 8 ≤ limit) :
    fits limit (some (httpCode status)) = true := by
  have short : status.repr.length ≤ 3 := (Nat.length_repr_le_iff (by decide)).mpr digits
  refine decide_eq_true ?_
  have length : (httpCode status).length = 5 + status.repr.length := String.length_append ..
  omega

theorem raise_carries (e : FetchRaise) (past : List (Sigma FetchAnswer)) (s : FetchState) :
    (Act.raise e : FetchAct FetchResult).Safe (fun _ _ => True) (CarriesResult tools response)
      past s := by
  intro _ fetched same
  cases same

theorem completed_carries {decision : FetchDecision} (code : fits 64 decision.errorCode = true)
    (reason : fits 2048 decision.reason = true) (body : Option Body)
    (past : List (Sigma FetchAnswer)) (s : FetchState) :
    (SafeFetcher.completed tools request response decision body).Safe (fun _ _ => True)
      (CarriesResult tools response) past s := by
  intro _ fetched same
  cases same
  refine ⟨List.filterMap_congr fun name _ => ?_, code, reason⟩
  rw [keptHeader, Option.map_map]
  rfl

theorem classifyStatus_fits {parsedate : String → ParsedDate} {status : Nat} (digits : status < 1000)
    {empty : Bool} {retryAfter : Option String} {now : Time} {decision : FetchDecision}
    (decided : classifyStatus parsedate status empty retryAfter now = some decision) :
    fits 64 decision.errorCode = true ∧ fits 2048 decision.reason = true := by
  have code := fits_httpCode digits (show 8 ≤ 64 by decide)
  have reason := fits_httpCode digits (show 8 ≤ 2048 by decide)
  have limited {delay : Option Int} (found : delay.map (fun delay => ({
      outcome := .retryable, contentAccess := .unknown, errorCode := some (httpCode status)
      retryAfter := some delay, blockOrigin := true } : FetchDecision)) = some decision) :
      fits 64 decision.errorCode = true ∧ fits 2048 decision.reason = true := by
    obtain ⟨delay, _, rfl⟩ := Option.map_eq_some_iff.mp found
    exact ⟨code, rfl⟩
  unfold classifyStatus at decided
  split_ifs at decided
  · cases decided
    exact ⟨rfl, rfl⟩
  · cases decided
    exact ⟨by decide, rfl⟩
  · cases decided
    exact ⟨rfl, rfl⟩
  · cases decided
    exact ⟨rfl, rfl⟩
  · exact limited decided
  · cases decided
    exact ⟨code, rfl⟩
  · cases decided
    exact ⟨code, rfl⟩
  · cases decided
    exact ⟨code, rfl⟩
  · cases decided
    exact ⟨code, rfl⟩
  · cases decided
    exact ⟨rfl, reason⟩
  · cases decided
    exact ⟨code, rfl⟩

theorem classifyError_fits {code : String} (short : fits 64 (some code) = true) :
    fits 64 (classifyError code).errorCode = true ∧ fits 2048 (classifyError code).reason = true := by
  unfold classifyError
  simp only [Bool.false_eq_true, if_false]
  split
  · exact ⟨short, rfl⟩
  · split
    · exact ⟨short, rfl⟩
    · exact ⟨short, rfl⟩

theorem failed_carries {code : String} (short : fits 64 (some code) = true)
    (past : List (Sigma FetchAnswer)) (s : FetchState) :
    (SafeFetcher.completed tools request response (classifyError code)).Safe (fun _ _ => True)
      (CarriesResult tools response) past s :=
  completed_carries (classifyError_fits short).1 (classifyError_fits short).2 none past s

theorem fits_quarantine {code : String} (listed : code ∈ quarantineErrors) :
    fits 64 (some code) = true := by
  simp only [quarantineErrors, List.mem_cons, List.not_mem_nil, or_false] at listed
  rcases listed with rfl | rfl | rfl
  · decide
  · decide
  · decide

theorem readResponse_carries (digits : response.status < 1000) (limits : BodyLimits) (now : Time)
    (past : List (Sigma FetchAnswer)) (s : FetchState) :
    (SafeFetcher.readResponse tools request response limits now).Safe (fun _ _ => True)
      (CarriesResult tools response) past s := by
  rw [SafeFetcher.readResponse, Act.safe_ask]
  refine ⟨trivial, fun read => ?_⟩
  split
  · next code =>
    intro own
    have listed : code ∈ quarantineErrors := own _ _ code List.mem_cons_self
    exact failed_carries (fits_quarantine listed) _ _ own
  · have short : fits 64 (some "content_encoding_unsupported") = true := by decide
    exact failed_carries short _ _
  · exact raise_carries _ _ _
  · split
    · exact raise_carries _ _ _
    · next decision decided =>
      have fit := classifyStatus_fits digits decided
      exact completed_carries fit.1 fit.2 _ _ _

/-- Whatever a complete response leads to, its result carries the response. -/
theorem complete_carries (digits : response.status < 1000) (origin : String)
    (past : List (Sigma FetchAnswer)) (s : FetchState) :
    (f.complete tools request response origin).Safe (fun _ _ => True) (CarriesResult tools response)
      past s := by
  rw [SafeFetcher.complete, Act.safe_ask]
  refine ⟨trivial, fun now => ?_⟩
  split
  · split
    · exact raise_carries _ _ _
    · next decision decided =>
      have fit := classifyStatus_fits digits decided
      have blocked : (SafeFetcher.blockOrigin origin now decision).Safe (fun _ _ => True)
          (fun _ _ _ => True) (⟨.now, now⟩ :: past) s := by
        unfold SafeFetcher.blockOrigin
        split
        · rw [Act.safe_ask]
          refine ⟨trivial, fun answer => ?_⟩
          cases answer <;> trivial
        · trivial
      apply blocked.andThen
      · intro past e s _ _ fetched same
        cases same
      · exact fun past _ s _ => completed_carries fit.1 fit.2 none past s
  · have skipped : fits 64 (some "media_binary_skipped") = true := by decide
    have large : fits 64 (some "body_too_large") = true := by decide
    split
    · exact failed_carries skipped _ _
    · dsimp only
      split
      · exact raise_carries _ _ _
      · exact failed_carries large _ _
      · exact readResponse_carries digits _ _ _ _

end Completion

section Rows
variable {tools : FetchTools} {f : SafeFetcher} {request : FetchRequest} {response : Response}
  {fetched : FetchResult} {a : RawArgs} {d : Drawn}

/-- `_complete` may end with this result. -/
def Completes (tools : FetchTools) (f : SafeFetcher) (request : FetchRequest) (response : Response)
    (fetched : FetchResult) : Prop :=
  ∃ origin s past after, (f.complete tools request response origin s).Run past
    (.done (.ok fetched, after)) ∧ ReaderCodes past

theorem Completes.carries (completes : Completes tools f request response fetched)
    (digits : response.status < 1000) : Carries tools response fetched := by
  obtain ⟨origin, s, past, after, run, own⟩ := completes
  exact (complete_carries digits origin [] s).run run own fetched rfl

/-- Of a row that does without its headers, the headers decide. -/
theorem record_admissible_iff (carries : Carries tools response a.fetched)
    (sound : (a.bare.record d).admissible = true) :
    (a.record d).admissible = headersFit tools response := by
  rw [← carries.columnsFit_iff a.task a.requestedUrl d.fetchedAt (some a.sha256) a.requestVariant]
  simp only [FetchRecord.admissible, Bool.and_eq_true] at sound
  obtain ⟨⟨⟨⟨⟨⟨⟨⟨⟨⟨variant, method⟩, status⟩, _⟩, _⟩, _⟩, _⟩, bytes⟩, sha256⟩, _⟩, _⟩ := sound
  change fits 64 (a.record d).requestVariant = true at variant
  change fits 8 (some (a.record d).httpMethod) = true at method
  change (a.record d).httpStatus.all (fun status => decide (100 ≤ status ∧ status ≤ 599)) = true
    at status
  change (a.record d).responseBytes.all (inRange 64) = true at bytes
  change (a.record d).rawSha256.all isSha256Hex = true at sha256
  simp only [FetchRecord.admissible, variant, method, status, bytes, sha256, Bool.true_and,
    Bool.and_true]
  rfl

theorem raw_admissible_iff (carries : Carries tools response a.fetched)
    (sound : (a.bare.raw d).admissible = true) :
    (a.raw d).admissible = (fits 128 (some a.mediaType) &&
      fits 64 (keptHeader tools response "content-encoding")) := by
  simp only [RawObject.admissible, Bool.and_eq_true] at sound
  obtain ⟨⟨⟨⟨sha256, nonneg⟩, size⟩, _⟩, _⟩ := sound
  change isSha256Hex (a.raw d).sha256 = true at sha256
  change decide (0 ≤ (a.raw d).sizeBytes) = true at nonneg
  change inRange 64 (a.raw d).sizeBytes = true at size
  simp only [RawObject.admissible, sha256, nonneg, size, Bool.true_and]
  rw [← carries.lookup (by decide)]
  rfl

/-- **When a response can be recorded.** The limits of the columns are met exactly if the redacted
headers are no longer than their columns; and a body that is in order but for them is committed,
with its row, its raw object and its job, exactly if in addition its media type fits. -/
theorem response_recorded_iff (digits : response.status < 1000)
    (completes : Completes tools f request response fetched) :
    (∀ task url fetchedAt rawSha256 variant,
      (fetchRecord task url fetched fetchedAt rawSha256 variant).columnsFit = true ↔
        headersFit tools response = true) ∧
    ∀ argsText (a : RawArgs) d db, a.fetched = fetched → a.InOrder argsText d db →
      (a.Committed argsText d db ↔
        headersFit tools response = true ∧ fits 128 (some a.mediaType) = true) := by
  have carries := completes.carries digits
  constructor
  · intro task url fetchedAt rawSha256 variant
    rw [carries.columnsFit_iff]
  · intro argsText a d db same inOrder
    subst same
    obtain ⟨record, raw⟩ := inOrder.rows
    rw [committed_iff inOrder, record_admissible_iff carries record, raw_admissible_iff carries raw,
      Bool.and_eq_true]
    have encoding (fit : headersFit tools response = true) :
        fits 64 (keptHeader tools response "content-encoding") = true := by
      simp only [headersFit, Bool.and_eq_true] at fit
      exact fit.1.1.2
    exact ⟨fun ⟨fit, media, _⟩ => ⟨fit, media⟩, fun ⟨fit, media⟩ => ⟨fit, media, encoding fit⟩⟩

end Rows

/-- A page that is gone, with an ETag. -/
def goneWith (etag : String) : Response where
  status := 410
  header name := if name = "etag" then some etag else none

theorem keptHeader_goneWith {etag : String} (filled : etag ≠ "") :
    keptHeader sampleTools (goneWith etag) "etag" = some etag := by
  simp [keptHeader, goneWith, Option.filter, filled, sampleTools]

theorem goneWith_completes (etag : String) : ∃ fetched,
    Completes sampleTools sampleFetcher { url := "https://a.ua/" } (goneWith etag) fetched := by
  have asks : (sampleFetcher.complete sampleTools { url := "https://a.ua/" } (goneWith etag)
      "https://a.ua" {}).Run [] (.ask .now _) := .nil
  refine ⟨_, "https://a.ua", {}, _, {}, asks.step (0 : Int), ?_⟩
  intro encoding limits code member
  cases List.mem_singleton.mp member

theorem response_recorded_iff_gone : ∃ fetched,
    Completes sampleTools sampleFetcher { url := "https://a.ua/" } (goneWith "v1") fetched ∧
      (fetchRecord ⟨1, [], none, none⟩ "https://a.ua/" fetched 0).columnsFit = true := by
  obtain ⟨fetched, completes⟩ := goneWith_completes "v1"
  have recorded := response_recorded_iff (by decide) completes
  exact ⟨fetched, completes, (recorded.1 ⟨1, [], none, none⟩ "https://a.ua/" 0 none none).mpr
    (by decide)⟩

/-- An ETag of 513 letters does not fit its column. -/
theorem long_etag_refused : ∃ fetched,
    Completes sampleTools sampleFetcher { url := "https://a.ua/" }
        (goneWith (String.ofList (List.replicate 513 'a'))) fetched ∧
      (fetchRecord ⟨1, [], none, none⟩ "https://a.ua/" fetched 0).admissible = false := by
  obtain ⟨fetched, completes⟩ := goneWith_completes (String.ofList (List.replicate 513 'a'))
  refine ⟨fetched, completes, ?_⟩
  have carries := completes.carries (by decide)
  have long : fits 512 (fetchRecord ⟨1, [], none, none⟩ "https://a.ua/" fetched 0).etag = false := by
    change fits 512 (fetched.headers.lookup "etag") = false
    rw [carries.lookup (by decide)]
    have filled : String.ofList (List.replicate 513 'a') ≠ "" := by
      intro empty
      have none := congrArg String.length empty
      rw [String.length_ofList, List.length_replicate] at none
      exact absurd none (by decide)
    rw [keptHeader_goneWith filled]
    change decide ((String.ofList (List.replicate 513 'a')).length ≤ 512) = false
    rw [String.length_ofList, List.length_replicate]
    rfl
  simp only [FetchRecord.admissible, long, Bool.and_false, Bool.false_and]

end Collector.Fetch
