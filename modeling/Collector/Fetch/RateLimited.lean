import Collector.Fetch.Client

/-!
A response with status 429. Its `Retry-After` is any text the origin likes to send; whatever can
be read of it, the origin is left alone for five seconds at least and a day at most.
-/

namespace Collector.Fetch
open Collector.Lib Collector.Persistence

/-- The header without the blanks around it, absent as empty. -/
def retryAfterText (value : Option String) : List Char := (strip (value.getD "")).toList

/-- Nothing, a number that `int` reads, or another text on which the date parser raises only what
is caught. -/
def RetryAfterReadable (parsedate : String → ParsedDate) (value : Option String) : Prop :=
  retryAfterText value = [] ∨
    if (retryAfterText value).all Char.isDigit then (retryAfterText value).length ≤ 4300
    else parsedate (String.ofList (retryAfterText value)) ≠ .raised

/-- The delay until a date; `none` when the date raises. -/
def ParsedDate.delay (now : Time) : ParsedDate → Option (Option Int)
  | .aware at_ => some (some (at_ - now))
  | .naive | .refused => some none
  | .raised => none

/-- The delay as the header gives it; `none` when that raises. -/
def requestedDelay (parsedate : String → ParsedDate) (value : Option String) (now : Time) :
    Option (Option Int) :=
  let text := retryAfterText value
  if text = [] then some none
  else if text.all Char.isDigit then
    (decimal text).map fun (n : Nat) => some (seconds (min n (24 * 3600 + 1)))
  else (parsedate (String.ofList text)).delay now

/-- The delay kept within its bounds. -/
def clampDelay : Option Int → Int
  | none => retryAfterDefault
  | some delay =>
    if delay < 0 then retryAfterDefault else min (max delay retryAfterMin) retryAfterMax

section Header
variable {parsedate : String → ParsedDate} {value : Option String} {now : Time}

theorem parseRetryAfter_eq :
    parseRetryAfter parsedate value now = (requestedDelay parsedate value now).map clampDelay := by
  unfold parseRetryAfter requestedDelay
  rw [← retryAfterText]
  generalize retryAfterText value = text
  by_cases empty : text = []
  · rw [empty, if_pos rfl]
    rfl
  have filled : text.isEmpty = false := List.isEmpty_eq_false_iff.mpr empty
  dsimp only
  rw [if_neg empty, filled]
  by_cases digits : text.all Char.isDigit = true
  · rw [digits]
    cases decimal text <;> rfl
  · rw [Bool.eq_false_iff.mpr digits]
    cases parsedate (String.ofList text) <;> rfl

theorem clampDelay_bounds (delay : Option Int) :
    seconds 5 ≤ clampDelay delay ∧ clampDelay delay ≤ seconds (24 * 3600) := by
  cases delay with
  | none => decide
  | some delay =>
    simp only [clampDelay, retryAfterDefault, retryAfterMin, retryAfterMax]
    have ordered : seconds 5 ≤ seconds (24 * 3600) := by decide
    split
    · decide
    · exact ⟨le_min (le_max_right _ _) ordered, min_le_right _ _⟩

theorem decimal_isSome {text : List Char} : (decimal text).isSome ↔ text.length ≤ 4300 := by
  unfold decimal
  split
  · simpa
  · simpa using Nat.le_of_not_lt ‹_›

theorem ParsedDate.delay_isSome (date : ParsedDate) : (date.delay now).isSome ↔ date ≠ .raised := by
  cases date <;> simp [ParsedDate.delay]

theorem requestedDelay_isSome :
    (requestedDelay parsedate value now).isSome ↔ RetryAfterReadable parsedate value := by
  unfold requestedDelay RetryAfterReadable
  by_cases empty : retryAfterText value = []
  · rw [if_pos empty]
    exact ⟨fun _ => .inl empty, fun _ => rfl⟩
  rw [if_neg empty, or_iff_right empty]
  split
  · rw [Option.isSome_map, decimal_isSome]
  · exact ParsedDate.delay_isSome _

theorem parseRetryAfter_isSome :
    (parseRetryAfter parsedate value now).isSome ↔ RetryAfterReadable parsedate value := by
  rw [parseRetryAfter_eq, Option.isSome_map, requestedDelay_isSome]

theorem parseRetryAfter_bounds {delay : Int}
    (parsed : parseRetryAfter parsedate value now = some delay) :
    seconds 5 ≤ delay ∧ delay ≤ seconds (24 * 3600) := by
  rw [parseRetryAfter_eq, Option.map_eq_some_iff] at parsed
  obtain ⟨requested, _, rfl⟩ := parsed
  exact clampDelay_bounds requested

theorem classifyStatus_429 (bodyEmpty : Bool) :
    classifyStatus parsedate 429 bodyEmpty value now =
      (parseRetryAfter parsedate value now).map fun delay =>
        { outcome := .retryable, contentAccess := .unknown, errorCode := some (httpCode 429)
          retryAfter := some delay, blockOrigin := true } := rfl

end Header

section Blocked
variable (tools : FetchTools) (value : Option String) (now : Time)

/-- The decision for a 429 is to retry after a bounded delay, and the first thing done about such
a response is to block its origin for that long. -/
def BlocksOrigin : Prop :=
  ∃ decision delay, (∀ bodyEmpty,
      classifyStatus tools.parsedate 429 bodyEmpty value now = some decision) ∧
    decision.outcome = .retryable ∧ decision.blockOrigin = true ∧
    decision.retryAfter = some delay ∧ seconds 5 ≤ delay ∧ delay ≤ seconds (24 * 3600) ∧
    ∀ (f : SafeFetcher) request (response : Response) origin s, response.status = 429 →
      response.header "retry-after" = value →
      ∃ next, f.complete tools request response origin s = .ask .now next ∧
        (next now).question = some (.block origin (now + delay) "http_429")

variable {tools value now}

/-- The clock is read, then the origin is blocked. -/
theorem complete_429 {delay : Int} (parsed : parseRetryAfter tools.parsedate value now = some delay)
    (f : SafeFetcher) (request : FetchRequest) {response : Response} (origin : String)
    (s : FetchState) (limited : response.status = 429)
    (header : response.header "retry-after" = value) :
    ∃ next, f.complete tools request response origin s = .ask .now next ∧
      (next now).question = some (.block origin (now + delay) "http_429") := by
  refine ⟨_, rfl, ?_⟩
  have outside : ¬(200 ≤ response.status ∧ response.status < 300) := by omega
  have decision : classifyStatus tools.parsedate response.status false
      (response.header "retry-after") now = some {
        outcome := .retryable, contentAccess := .unknown, errorCode := some (httpCode 429)
        retryAfter := some delay, blockOrigin := true } := by
    rw [limited, header, classifyStatus_429, parsed]
    rfl
  dsimp only [Script.bind]
  rw [if_pos outside, decision]
  rfl

theorem readable_of_blocksOrigin (blocks : BlocksOrigin tools value now) :
    RetryAfterReadable tools.parsedate value := by
  obtain ⟨decision, _, decided, _⟩ := blocks
  obtain ⟨delay, parsed, _⟩ := Option.map_eq_some_iff.mp (decided false)
  exact parseRetryAfter_isSome.mp (Option.isSome_iff_exists.mpr ⟨delay, parsed⟩)

/-- A 429 blocks its origin for a bounded time exactly if its `Retry-After` can be read: the two
ways to fail are a number too long for `int` and a date beyond what `int` holds in C. -/
theorem blocksOrigin_iff :
    BlocksOrigin tools value now ↔ RetryAfterReadable tools.parsedate value := by
  refine ⟨readable_of_blocksOrigin, fun readable => ?_⟩
  have found : (parseRetryAfter tools.parsedate value now).isSome :=
    parseRetryAfter_isSome.mpr readable
  obtain ⟨delay, parsed⟩ := Option.isSome_iff_exists.mp found
  obtain ⟨least, most⟩ := parseRetryAfter_bounds parsed
  refine ⟨_, delay, fun bodyEmpty => by rw [classifyStatus_429, parsed]; rfl, rfl, rfl, rfl,
    least, most, ?_⟩
  intro f request response origin s limited header
  exact complete_429 parsed f request origin s limited header

end Blocked

theorem retryAfterText_replicate (n : Nat) {c : Char} (visible : isSpace c = false) :
    retryAfterText (some (String.ofList (List.replicate n c))) = List.replicate n c := by
  have kept : (List.replicate n c).dropWhile isSpace = List.replicate n c := by
    cases n with
    | zero => rfl
    | succ n => rw [List.replicate_succ, List.dropWhile_cons_of_neg (by simp [visible])]
  simp only [retryAfterText, Option.getD_some, strip, String.toList_ofList, kept,
    List.reverse_replicate]

/-- A number of 4301 nines is not read. -/
theorem blocksOrigin_nines :
    ¬ ∃ tools now, BlocksOrigin tools (some (String.ofList (List.replicate 4301 '9'))) now := by
  rintro ⟨tools, now, blocks⟩
  have readable := readable_of_blocksOrigin blocks
  rw [RetryAfterReadable, retryAfterText_replicate 4301 (by decide),
    if_pos (by rw [List.all_replicate]; rfl), List.length_replicate] at readable
  rcases readable with empty | short
  · exact absurd (congrArg List.length empty) (by rw [List.length_replicate]; decide)
  · exact absurd short (by decide)

end Collector.Fetch
