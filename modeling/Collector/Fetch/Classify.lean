import Collector.Fetch.Urls

/-!
What an attempt to fetch means: the outcome of the attempt and the access to the content are
separate, and a response without a body of its own says nothing about the item. Times and
intervals are whole microseconds.
-/

namespace Collector.Fetch
open Collector.Persistence

inductive FetchOutcome where
  | success
  | retryable
  | permanentFailure
  deriving DecidableEq, Repr

inductive ContentAccess where
  | full
  | partially
  | metadataOnly
  | blocked
  | challenge
  | premium
  | gone
  | unknown
  deriving DecidableEq, Repr

structure FetchDecision where
  outcome : FetchOutcome
  contentAccess : ContentAccess
  errorCode : Option String := none
  reason : Option String := none
  retryAfter : Option Int := none
  routeIncident : Bool := false
  blockOrigin : Bool := false
  browserCandidate : Bool := false
  quarantine : Bool := false
  notModified : Bool := false
  deriving DecidableEq, Repr

def retryableStatuses : List Nat := [408, 425, 500, 502, 503, 504]

def retryableErrors : List String := ["timeout", "network_error", "dns_error", "permit_lease_too_short"]

def quarantineErrors : List String := ["body_too_large", "decompression_bomb", "content_decoding_error"]

def retryAfterDefault : Int := seconds 600

def retryAfterMin : Int := seconds 5

def retryAfterMax : Int := seconds (24 * 3600)

/-- `parsedate_to_datetime`: an aware or a naive time, an exception that is caught, or another. -/
inductive ParsedDate where
  | aware (at_ : Time)
  | naive
  | refused
  | raised
  deriving DecidableEq, Repr

/-- The digits of a decimal number; Python reads no more than 4300 of them. -/
def decimal (text : List Char) : Option Nat :=
  if 4300 < text.length then none
  else some (text.foldl (fun sum c => sum * 10 + (c.toNat - '0'.toNat)) 0)

/-- `parse_retry_after`; `none` when it raises. -/
def parseRetryAfter (parsedate : String → ParsedDate) (value : Option String) (now : Time) : Option Int := do
  let text := (strip (value.getD "")).toList
  let delay ←
    if !text.isEmpty && text.all Char.isDigit then
      (decimal text).map fun n => some (seconds (min (n : Int) (24 * 3600 + 1)))
    else if text.isEmpty then some none
    else
      match parsedate (String.ofList text) with
      | .aware at_ => some (some (at_ - now))
      | .naive | .refused => some none
      | .raised => none
  match delay with
  | none => return retryAfterDefault
  | some delay => return if delay < 0 then retryAfterDefault else min (max delay retryAfterMin) retryAfterMax

/-- `f"http_{status}"`. -/
def httpCode (status : Nat) : String := "http_" ++ toString status

/-- `classify_status`; `none` when reading `Retry-After` raises. -/
def classifyStatus (parsedate : String → ParsedDate) (status : Nat) (bodyEmpty : Bool)
    (retryAfter : Option String) (now : Time) : Option FetchDecision :=
  let code := httpCode status
  if status = 304 then some { outcome := .success, contentAccess := .unknown, notModified := true }
  else if 200 ≤ status ∧ status < 300 then
    if bodyEmpty then
      some { outcome := .retryable, contentAccess := .unknown, errorCode := some "empty_body" }
    else some { outcome := .success, contentAccess := if status = 206 then .partially else .full }
  else if status = 429 then
    (parseRetryAfter parsedate retryAfter now).map fun delay =>
      { outcome := .retryable, contentAccess := .unknown, errorCode := some code
        retryAfter := some delay, blockOrigin := true }
  else if status ∈ retryableStatuses then
    some { outcome := .retryable, contentAccess := .unknown, errorCode := some code }
  else if status = 401 ∨ status = 403 then
    some { outcome := .permanentFailure, contentAccess := .blocked, errorCode := some code
           routeIncident := true, browserCandidate := true }
  else if status = 404 ∨ status = 410 then
    some { outcome := .permanentFailure, contentAccess := .gone, errorCode := some code }
  else if status = 451 then
    some { outcome := .permanentFailure, contentAccess := .blocked, errorCode := some code }
  else if 300 ≤ status ∧ status < 400 then
    some { outcome := .permanentFailure, contentAccess := .unknown
           errorCode := some "redirect_invalid", reason := some code }
  else some { outcome := .permanentFailure, contentAccess := .unknown, errorCode := some code }

/-- `classify_error`. -/
def classifyError (errorCode : String) (policy : Bool := false) : FetchDecision :=
  if policy then
    { outcome := .permanentFailure, contentAccess := .unknown, errorCode := some "policy_blocked"
      reason := some errorCode }
  else if errorCode ∈ retryableErrors then
    { outcome := .retryable, contentAccess := .unknown, errorCode := some errorCode }
  else if errorCode = "media_binary_skipped" then
    { outcome := .success, contentAccess := .metadataOnly, errorCode := some errorCode }
  else
    { outcome := .permanentFailure, contentAccess := .unknown, errorCode := some errorCode
      quarantine := decide (errorCode ∈ quarantineErrors) }

end Collector.Fetch
