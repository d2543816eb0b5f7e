import Collector.Lib.Machine
import Collector.Lib.Sorting
import Mathlib.Algebra.Order.Ring.Int
import Mathlib.Data.List.Nodup

/-!
The two time axes of an entity's versions. `build_intervals` closes the valid axis by
`effective_at` and the known axis by `ingested_at`, each on its own; a query names a moment on
both. A datetime is an aware UTC instant, in microseconds.
-/

namespace Collector.Contracts
open Collector.Lib

abbrev UtcDatetime := Int

/-- What the contract layer raises, with the text it raises. -/
inductive ContractError where
  | valueError (message : String)
  | keyError
  deriving DecidableEq, Repr

structure VersionTimes where
  projectionVersion : Int
  effectiveAt : UtcDatetime
  ingestedAt : UtcDatetime
  positive : 1 ≤ projectionVersion
  deriving DecidableEq

/-- Half-open intervals on both axes; an upper bound of `none` is open. -/
structure BitemporalInterval where
  validFrom : UtcDatetime
  validTo : Option UtcDatetime
  knownFrom : UtcDatetime
  knownTo : Option UtcDatetime
  validOrdered : ∀ t ∈ validTo, validFrom ≤ t
  knownOrdered : ∀ t ∈ knownTo, knownFrom < t
  deriving DecidableEq

/-- The constructor with its `_ordered` validator. -/
def BitemporalInterval.make (validFrom : UtcDatetime) (validTo : Option UtcDatetime)
    (knownFrom : UtcDatetime) (knownTo : Option UtcDatetime) :
    Except ContractError BitemporalInterval :=
  if validOrdered : ∀ t ∈ validTo, validFrom ≤ t then
    if knownOrdered : ∀ t ∈ knownTo, knownFrom < t then
      .ok ⟨validFrom, validTo, knownFrom, knownTo, validOrdered, knownOrdered⟩
    else .error (.valueError "known_to має бути пізніше known_from")
  else .error (.valueError "valid_to < valid_from")

/-- `upper is None or moment < upper`. -/
def before (moment : UtcDatetime) (upper : Option UtcDatetime) : Bool :=
  match upper with
  | none => true
  | some upper => decide (moment < upper)

def BitemporalInterval.contains (interval : BitemporalInterval)
    (asOfValidTime asKnownAt : UtcDatetime) : Bool :=
  let valid := decide (interval.validFrom ≤ asOfValidTime) && before asOfValidTime interval.validTo
  let known := decide (interval.knownFrom ≤ asKnownAt) && before asKnownAt interval.knownTo
  valid && known

structure VersionInterval where
  projectionVersion : Int
  interval : BitemporalInterval
  positive : 1 ≤ projectionVersion
  deriving DecidableEq

/-- A `dict` from projection versions; assigning a key again overwrites it. -/
abbrev VersionDict := Int → Option (Option UtcDatetime)

/-- The loop of `_next_strictly_later` over what is left of `ordered`. -/
def fillNextStrictlyLater (axis : VersionTimes → UtcDatetime) :
    List VersionTimes → VersionDict → VersionDict
  | [], result => result
  | version :: later, result =>
    let next := (later.find? fun n => decide (axis version < axis n)).map axis
    fillNextStrictlyLater axis later (Function.update result version.projectionVersion (some next))

def nextStrictlyLater (versions : List VersionTimes) (axis : VersionTimes → UtcDatetime) :
    VersionDict :=
  let ordered := sortedBy (fun v => toLex (axis v, v.projectionVersion)) versions
  fillNextStrictlyLater axis ordered fun _ => none

/-- One element of the list that `build_intervals` returns. -/
def buildInterval (validTo knownTo : VersionDict) (version : VersionTimes) :
    Except ContractError VersionInterval := do
  let validTo ← require (validTo version.projectionVersion) .keyError
  let knownTo ← require (knownTo version.projectionVersion) .keyError
  let interval ← BitemporalInterval.make version.effectiveAt validTo version.ingestedAt knownTo
  return ⟨version.projectionVersion, interval, version.positive⟩

def buildIntervals (versions : List VersionTimes) : Except ContractError (List VersionInterval) := do
  ensure (decide (versions.map VersionTimes.projectionVersion).Nodup)
    (.valueError "projection_version мають бути унікальними")
  let validTo := nextStrictlyLater versions VersionTimes.effectiveAt
  let knownTo := nextStrictlyLater versions VersionTimes.ingestedAt
  (sortedBy VersionTimes.projectionVersion versions).mapM (buildInterval validTo knownTo)

/-- The versions whose interval contains the moment. -/
def answering (intervals : List VersionInterval) (asOfValidTime asKnownAt : UtcDatetime) :
    List Int :=
  (intervals.filter fun v => v.interval.contains asOfValidTime asKnownAt).map
    VersionInterval.projectionVersion

/-! ## What the loop finds -/

/-- In an ordered tail the first later value of the axis is the least one. -/
theorem before_find {axis : VersionTimes → UtcDatetime} {bound moment : UtcDatetime} {later : List VersionTimes}
    (ordered : later.Pairwise fun m n => axis m ≤ axis n) :
    before moment ((later.find? fun n => decide (bound < axis n)).map axis) = true ↔
      ∀ n ∈ later, bound < axis n → moment < axis n := by
  induction later with
  | nil => simp [before]
  | cons m later ih =>
    have rest := List.pairwise_cons.mp ordered
    by_cases above : bound < axis m
    · rw [List.find?_cons_of_pos (by simpa using above)]
      simp only [Option.map_some, before, decide_eq_true_eq]
      constructor
      · intro earlier n member _
        rcases List.mem_cons.mp member with rfl | member
        · exact earlier
        · exact lt_of_lt_of_le earlier (rest.1 n member)
      · intro earlier
        exact earlier m List.mem_cons_self above
    · rw [List.find?_cons_of_neg (by simpa using above), ih rest.2]
      simp [above]

theorem fillNextStrictlyLater_of_notMem {axis : VersionTimes → UtcDatetime}
    {ordered : List VersionTimes} {result : VersionDict} {n : Int}
    (absent : n ∉ ordered.map VersionTimes.projectionVersion) :
    fillNextStrictlyLater axis ordered result n = result n := by
  induction ordered generalizing result with
  | nil => rfl
  | cons version later ih =>
    rw [List.map_cons, List.mem_cons, not_or] at absent
    rw [fillNextStrictlyLater, ih absent.2, Function.update_of_ne absent.1]

theorem fillNextStrictlyLater_append {axis : VersionTimes → UtcDatetime}
    {earlier later : List VersionTimes} {v : VersionTimes} {result : VersionDict}
    (distinct : ((earlier ++ v :: later).map VersionTimes.projectionVersion).Nodup) :
    fillNextStrictlyLater axis (earlier ++ v :: later) result v.projectionVersion =
      some ((later.find? fun n => decide (axis v < axis n)).map axis) := by
  induction earlier generalizing result with
  | nil =>
    have absent := (List.nodup_cons.mp distinct).1
    rw [List.nil_append, fillNextStrictlyLater, fillNextStrictlyLater_of_notMem absent,
      Function.update_self]
  | cons u earlier ih => exact ih (List.nodup_cons.mp distinct).2

/-- The bound that `_next_strictly_later` gives a version: a moment is before it exactly when it
is before every later value of the axis. -/
theorem nextStrictlyLater_spec (axis : VersionTimes → UtcDatetime) {versions : List VersionTimes}
    {v : VersionTimes}
    (distinct : (versions.map VersionTimes.projectionVersion).Nodup) (member : v ∈ versions) :
    ∃ next, nextStrictlyLater versions axis v.projectionVersion = some next ∧
      ∀ moment, before moment next = true ↔ ∀ n ∈ versions, axis v < axis n → moment < axis n := by
  let rank : VersionTimes → ℤ ×ₗ ℤ := fun v => toLex (axis v, v.projectionVersion)
  have perm := sortedBy_perm rank versions
  have climbing : (sortedBy rank versions).Pairwise fun m n => axis m ≤ axis n := by
    apply (sortedBy_pairwise rank versions).imp
    intro m n below
    exact Prod.Lex.monotone_fst _ _ below
  obtain ⟨earlier, later, split⟩ := List.append_of_mem (perm.mem_iff.mpr member)
  rw [split] at perm climbing
  have apart := ((perm.map VersionTimes.projectionVersion).nodup_iff).mpr distinct
  refine ⟨(later.find? fun n => decide (axis v < axis n)).map axis, ?_, fun moment => ?_⟩
  · show fillNextStrictlyLater axis (sortedBy rank versions) _ _ = _
    rw [split]
    exact fillNextStrictlyLater_append apart
  · have parts := List.pairwise_append.mp climbing
    rw [before_find (List.pairwise_cons.mp parts.2.1).2]
    constructor
    · intro within n known above
      rcases List.mem_append.mp (perm.mem_iff.mpr known) with old | new
      · exact absurd above (not_lt.mpr (parts.2.2 n old v List.mem_cons_self))
      · rcases List.mem_cons.mp new with rfl | new
        · exact absurd above (lt_irrefl _)
        · exact within n new above
    · intro within n new above
      exact within n (perm.mem_iff.mp (List.mem_append_right _ (List.mem_cons_of_mem _ new))) above

/-! ## What an interval contains -/

/-- Nothing in the list is later on the axis than `v` and not later than `moment`. -/
def LatestAt (axis : VersionTimes → UtcDatetime) (versions : List VersionTimes) (v : VersionTimes)
    (moment : UtcDatetime) : Prop :=
  axis v ≤ moment ∧ ∀ n ∈ versions, axis n ≤ moment → axis n ≤ axis v

instance (axis : VersionTimes → UtcDatetime) (versions : List VersionTimes) (v : VersionTimes)
    (moment : UtcDatetime) : Decidable (LatestAt axis versions v moment) :=
  inferInstanceAs (Decidable (_ ∧ _))

theorem latestAt_iff {axis : VersionTimes → UtcDatetime} {versions : List VersionTimes}
    {v : VersionTimes} {moment : UtcDatetime} {next : Option UtcDatetime}
    (spec : ∀ t, before t next = true ↔ ∀ n ∈ versions, axis v < axis n → t < axis n) :
    (decide (axis v ≤ moment) && before moment next) = true ↔ LatestAt axis versions v moment := by
  rw [Bool.and_eq_true, decide_eq_true_eq, spec]
  apply and_congr_right
  intro _
  apply forall₂_congr
  intro n _
  rw [← not_lt, ← not_lt, not_imp_not]

theorem ordered_of_spec {axis : VersionTimes → UtcDatetime} {versions : List VersionTimes}
    {v : VersionTimes} {next : Option UtcDatetime}
    (spec : ∀ t, before t next = true ↔ ∀ n ∈ versions, axis v < axis n → t < axis n) :
    ∀ t ∈ next, axis v < t := by
  intro t bound
  have first := (spec (axis v)).mpr fun _ _ above => above
  rw [Option.mem_def.mp bound] at first
  simpa [before] using first

/-- The bound of an axis, as the moments before it. -/
def Bounds (axis : VersionTimes → UtcDatetime) (versions : List VersionTimes) (v : VersionTimes)
    (next : Option UtcDatetime) : Prop :=
  ∀ t, before t next = true ↔ ∀ n ∈ versions, axis v < axis n → t < axis n

/-- The interval built for a version starts with its own times and passes the validator. -/
theorem buildInterval_eq {versions : List VersionTimes} {v : VersionTimes}
    (distinct : (versions.map VersionTimes.projectionVersion).Nodup) (member : v ∈ versions) :
    ∃ built, buildInterval (nextStrictlyLater versions VersionTimes.effectiveAt)
        (nextStrictlyLater versions VersionTimes.ingestedAt) v = .ok built ∧
      built.projectionVersion = v.projectionVersion ∧
      built.interval.validFrom = v.effectiveAt ∧ built.interval.knownFrom = v.ingestedAt ∧
      Bounds VersionTimes.effectiveAt versions v built.interval.validTo ∧
      Bounds VersionTimes.ingestedAt versions v built.interval.knownTo := by
  obtain ⟨validTo, foundValid, valid⟩ :=
    nextStrictlyLater_spec VersionTimes.effectiveAt distinct member
  obtain ⟨knownTo, foundKnown, known⟩ :=
    nextStrictlyLater_spec VersionTimes.ingestedAt distinct member
  have validOrdered : ∀ t ∈ validTo, v.effectiveAt ≤ t := fun t bound =>
    (ordered_of_spec valid t bound).le
  have knownOrdered := ordered_of_spec known
  refine ⟨⟨v.projectionVersion, ⟨v.effectiveAt, validTo, v.ingestedAt, knownTo, validOrdered,
    knownOrdered⟩, v.positive⟩, ?_, rfl, rfl, rfl, valid, known⟩
  simp only [buildInterval, foundValid, foundKnown, require, BitemporalInterval.make,
    dif_pos validOrdered, dif_pos knownOrdered, bind, Except.bind, pure, Except.pure]

/-- The interval built for a version answers exactly where the version is the latest of the list
on both axes. -/
theorem buildInterval_spec {versions : List VersionTimes} {v : VersionTimes}
    (distinct : (versions.map VersionTimes.projectionVersion).Nodup) (member : v ∈ versions) :
    ∃ built, buildInterval (nextStrictlyLater versions VersionTimes.effectiveAt)
        (nextStrictlyLater versions VersionTimes.ingestedAt) v = .ok built ∧
      built.projectionVersion = v.projectionVersion ∧
      ∀ a k, built.interval.contains a k = true ↔
        LatestAt VersionTimes.effectiveAt versions v a ∧
        LatestAt VersionTimes.ingestedAt versions v k := by
  obtain ⟨built, found, version, validFrom, knownFrom, valid, known⟩ :=
    buildInterval_eq distinct member
  refine ⟨built, found, version, fun a k => ?_⟩
  rw [← latestAt_iff valid, ← latestAt_iff known, ← Bool.and_eq_true, ← validFrom, ← knownFrom]
  rfl

/-- The versions that are the latest of the list on both axes, in the order of the result. -/
def latestVersions (versions : List VersionTimes) (a k : UtcDatetime) : List VersionTimes :=
  (sortedBy VersionTimes.projectionVersion versions).filter fun v =>
    decide (LatestAt VersionTimes.effectiveAt versions v a ∧
      LatestAt VersionTimes.ingestedAt versions v k)

theorem mem_latestVersions {versions : List VersionTimes} {a k : UtcDatetime} {v : VersionTimes} :
    v ∈ latestVersions versions a k ↔ v ∈ versions ∧
      LatestAt VersionTimes.effectiveAt versions v a ∧
      LatestAt VersionTimes.ingestedAt versions v k := by
  simp [latestVersions]

theorem answering_eq {versions ordered : List VersionTimes} {intervals : List VersionInterval}
    (each : List.Forall₂ (fun v built => built.projectionVersion = v.projectionVersion ∧
      ∀ a k, built.interval.contains a k = true ↔
        LatestAt VersionTimes.effectiveAt versions v a ∧
        LatestAt VersionTimes.ingestedAt versions v k) ordered intervals) (a k : UtcDatetime) :
    answering intervals a k = (ordered.filter fun v =>
      decide (LatestAt VersionTimes.effectiveAt versions v a ∧
        LatestAt VersionTimes.ingestedAt versions v k)).map VersionTimes.projectionVersion := by
  induction each with
  | nil => rfl
  | @cons v built ordered intervals related _ ih =>
    have same : built.interval.contains a k =
        decide (LatestAt VersionTimes.effectiveAt versions v a ∧
          LatestAt VersionTimes.ingestedAt versions v k) := by
      rw [Bool.eq_iff_iff, decide_eq_true_iff]
      exact related.2 a k
    unfold answering at ih ⊢
    rw [List.filter_cons, List.filter_cons, same]
    split
    · rw [List.map_cons, List.map_cons, ih, related.1]
    · exact ih

/-- `build_intervals` returns for every list without a repeated version, and a version answers a
query exactly where it is the latest of the whole list on both axes. -/
theorem buildIntervals_spec {versions : List VersionTimes}
    (distinct : (versions.map VersionTimes.projectionVersion).Nodup) :
    ∃ intervals, buildIntervals versions = .ok intervals ∧ ∀ a k,
      answering intervals a k = (latestVersions versions a k).map VersionTimes.projectionVersion := by
  have perm := sortedBy_perm VersionTimes.projectionVersion versions
  obtain ⟨intervals, built, each⟩ := Except.mapM_eq_ok fun v member =>
    buildInterval_spec distinct (perm.mem_iff.mp member)
  refine ⟨intervals, ?_, answering_eq each⟩
  simp only [buildIntervals, ensure, distinct, decide_true, if_true, bind, Except.bind]
  exact built

end Collector.Contracts
