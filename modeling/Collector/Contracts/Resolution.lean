import Collector.Contracts.Temporal
import Mathlib.Data.Finmap
import Mathlib.Data.Finset.Prod
import Mathlib.Data.Rat.Defs
import Mathlib.Algebra.Order.Ring.Unbundled.Rat

/-!
Reversible entity resolution. Source records are never merged; the groups are a projection of
the list of decisions, replayed in the order of their times. `project_groups` keeps the highest
version of every decision, drops what an effective decision supersedes and replays the rest.

A Python set has no order of its own, so every loop over a set takes the order it visits the
elements in from a `SetOrder`.
-/

namespace Collector.Contracts
open Collector.Lib

/-- A UUID as its 128-bit value, which is also what `UUID.int` orders by. -/
abbrev Uuid := Nat

inductive ResolutionAction where
  | merge
  | unmerge
  | reject
  | manualLink
  | manualBlock
  deriving DecidableEq, Repr

def ResolutionAction.value : ResolutionAction → String
  | .merge => "merge"
  | .unmerge => "unmerge"
  | .reject => "reject"
  | .manualLink => "manual_link"
  | .manualBlock => "manual_block"

/-- `_GROUP_ACTIONS`. -/
def ResolutionAction.groups : ResolutionAction → Bool
  | .merge | .manualLink => true
  | _ => false

/-- The fields of a decision that its validators or the replay read. -/
structure DecisionFields where
  decisionId : Uuid
  decisionVersion : Int
  action : ResolutionAction
  memberEntityIds : List Uuid
  canonicalGroupId : Option Uuid
  score : Option ℚ
  effectiveAt : UtcDatetime
  recordedAt : UtcDatetime
  supersedesDecisionId : Option Uuid
  deriving DecidableEq

/-- `_shape_by_action`. -/
def shapeByAction (d : DecisionFields) : Except ContractError Unit := do
  ensure (decide d.memberEntityIds.Nodup) (.valueError "member_entity_ids містить дублікати")
  if d.action.groups then
    ensure d.canonicalGroupId.isSome (.valueError (d.action.value ++ " вимагає canonical_group_id"))
    ensure (decide (2 ≤ d.memberEntityIds.length))
      (.valueError (d.action.value ++ " вимагає щонайменше два member_entity_ids"))
  ensure (!(decide (d.action = .merge) && d.score.isNone))
    (.valueError "auto merge без score заборонений (§9.3 п.6)")
  ensure (!(decide (d.action = .manualBlock) && decide (d.memberEntityIds.length < 2)))
    (.valueError "manual_block вимагає щонайменше два member_entity_ids")
  ensure (!decide (d.supersedesDecisionId = some d.decisionId))
    (.valueError "рішення не може supersede саме себе")

/-- A decision that passed its field constraints and its validator. -/
structure ResolutionDecision extends DecisionFields where
  versionPositive : 1 ≤ decisionVersion
  membersNonempty : 1 ≤ memberEntityIds.length
  scoreInRange : ∀ s ∈ score, 0 ≤ s ∧ s ≤ 1
  shape : shapeByAction toDecisionFields = .ok ()
  deriving DecidableEq

structure ResolutionSnapshot where
  groups : List (Uuid × List Uuid)
  blockedPairs : List (Uuid × Uuid)
  appliedDecisionIds : List Uuid
  skippedDecisionIds : List Uuid
  supersededDecisionIds : List Uuid
  deriving DecidableEq, Repr

/-! ## Supersession -/

/-- The loop body that fills `latest`: a higher version replaces the value and keeps its place. -/
def recordLatest (latest : List ResolutionDecision) (decision : ResolutionDecision) :
    List ResolutionDecision :=
  match latest.find? fun c => decide (c.decisionId = decision.decisionId) with
  | none => latest ++ [decision]
  | some current =>
    if current.decisionVersion < decision.decisionVersion then
      latest.map fun c => if c.decisionId = decision.decisionId then decision else c
    else latest

/-- `list(latest.values())`. -/
def latestDecisions (decisions : List ResolutionDecision) : List ResolutionDecision :=
  decisions.foldl recordLatest []

def effectiveAmong (candidates : List ResolutionDecision) (superseded : Finset Uuid) :
    List ResolutionDecision :=
  candidates.filter fun d => decide (d.decisionId ∉ superseded)

def nextSuperseded (effective : List ResolutionDecision) : Finset Uuid :=
  (effective.filterMap fun d => d.supersedesDecisionId).toFinset

/-- The loop of `_effective_decisions` with the passes it has left. -/
def settle (candidates : List ResolutionDecision) :
    Nat → Finset Uuid → Except ContractError (List ResolutionDecision × Finset Uuid)
  | 0, _ => .error (.valueError "supersedes_decision_id утворює цикл — replay неможливий")
  | passes + 1, superseded =>
    let effective := effectiveAmong candidates superseded
    let next := nextSuperseded effective
    if next = superseded then .ok (effective, superseded) else settle candidates passes next

/-- `_effective_decisions`. -/
def effectiveDecisions (decisions : List ResolutionDecision) :
    Except ContractError (List ResolutionDecision × Finset Uuid) :=
  let candidates := latestDecisions decisions
  settle candidates (candidates.length + 1) ∅

/-! ## Replay -/

/-- An order in which a loop visits the elements of a set. -/
structure SetOrder where
  visit : Finset Uuid → List Uuid
  nodup : ∀ s, (visit s).Nodup
  mem_visit : ∀ s x, x ∈ visit s ↔ x ∈ s

/-- The sorted pairs of a set of ids. -/
def pairsOf : List Uuid → List (Uuid × Uuid)
  | [] => []
  | a :: later => later.map (fun b => (a, b)) ++ pairsOf later

/-- `_pairs`. -/
def pairs (ids : Finset Uuid) : Finset (Uuid × Uuid) :=
  (pairsOf (sortedSet id Function.injective_id ids)).toFinset

/-- `_required_group_id`. -/
def requiredGroupId (decision : ResolutionDecision) : Except ContractError Uuid :=
  require decision.canonicalGroupId (.valueError (decision.action.value ++ " без canonical_group_id"))

/-- The local variables of `project_groups` between two decisions. -/
structure ReplayState where
  membership : Finmap fun _ : Uuid => Uuid
  groups : Finmap fun _ : Uuid => Finset Uuid
  blocked : Finset (Uuid × Uuid)
  applied : List Uuid
  skipped : List Uuid

def ReplayState.start : ReplayState := ⟨∅, ∅, ∅, [], []⟩

def leave (entity : Uuid) (state : ReplayState) : Except ContractError ReplayState :=
  match state.membership.lookup entity with
  | none => .ok state
  | some old => do
    let held ← require (state.groups.lookup old) .keyError
    let left := held.erase entity
    return { state with
      membership := state.membership.erase entity
      groups := if left = ∅ then state.groups.erase old else state.groups.insert old left }

/-- `affected`: the members and the groups they are in. -/
def affectedBy (state : ReplayState) (members : Finset Uuid) (visited : List Uuid) :
    Except ContractError (Finset Uuid) :=
  visited.foldlM (fun affected member =>
    match state.membership.lookup member with
    | none => .ok affected
    | some current => do
      let held ← require (state.groups.lookup current) .keyError
      return affected ∪ held) members

/-- `any(a in affected and b in affected for a, b in blocked)`. -/
def blockedWithin (blocked : Finset (Uuid × Uuid)) (affected : Finset Uuid) : Bool :=
  decide (∃ pair ∈ blocked, pair.1 ∈ affected ∧ pair.2 ∈ affected)

def moveTo (groupId : Uuid) (visited : List Uuid) (state : ReplayState) :
    Except ContractError ReplayState :=
  visited.foldlM (fun state entity => do
    let without ← leave entity state
    return { without with membership := without.membership.insert entity groupId }) state

/-- `groups.setdefault(group_id, set()).update(affected)`. -/
def ReplayState.update (state : ReplayState) (groupId : Uuid) (affected : Finset Uuid) : ReplayState :=
  { state with groups :=
      state.groups.insert groupId ((state.groups.lookup groupId).getD ∅ ∪ affected) }

def ReplayState.apply (state : ReplayState) (decision : ResolutionDecision) : ReplayState :=
  { state with applied := state.applied ++ [decision.decisionId] }

def ReplayState.skip (state : ReplayState) (decision : ResolutionDecision) : ReplayState :=
  { state with skipped := state.skipped ++ [decision.decisionId] }

/-- One turn of the replay loop. The orders are those of the loops over `members` and over
`affected`. -/
def replayDecision (first second : SetOrder) (decision : ResolutionDecision) (state : ReplayState) :
    Except ContractError ReplayState := do
  let members := decision.memberEntityIds.toFinset
  if decision.action.groups then
    let groupId ← requiredGroupId decision
    let affected ← affectedBy state members (first.visit members)
    if decision.action = .merge ∧ blockedWithin state.blocked affected then
      return state.skip decision
    else
      let moved ← moveTo groupId (second.visit affected) state
      return (moved.update groupId affected).apply decision
  else if decision.action = .manualBlock then
    return { state with blocked := state.blocked ∪ pairs members }.apply decision
  else if decision.action = .unmerge then
    let without ← (first.visit members).foldlM (fun state entity => leave entity state) state
    return without.apply decision
  else
    return state.apply decision

/-- The replay loop; every turn has its own pair of orders. -/
def replay (orders : Nat → SetOrder) : List ResolutionDecision → ReplayState →
    Except ContractError ReplayState
  | [], state => .ok state
  | decision :: later, state => do
    let next ← replayDecision (orders 0) (orders 1) decision state
    replay (fun n => orders (n + 2)) later next

/-- The key of the replay order. -/
def replayKey (d : ResolutionDecision) : UtcDatetime ×ₗ UtcDatetime ×ₗ ℤ ×ₗ Uuid :=
  toLex (d.effectiveAt, toLex (d.recordedAt, toLex (d.decisionVersion, d.decisionId)))

def snapshot (state : ReplayState) (superseded : Finset Uuid) : ResolutionSnapshot where
  groups := (sortedSet id Function.injective_id state.groups.keys).filterMap fun gid =>
    (state.groups.lookup gid).bind fun entities =>
      if 2 ≤ entities.card then some (gid, sortedSet id Function.injective_id entities) else none
  blockedPairs := sortedSet (fun pair => toLex (pair.1, pair.2)) (fun _ _ same => same) state.blocked
  appliedDecisionIds := state.applied
  skippedDecisionIds := state.skipped
  supersededDecisionIds := sortedSet id Function.injective_id superseded

def projectGroups (orders : Nat → SetOrder) (decisions : List ResolutionDecision) :
    Except ContractError ResolutionSnapshot := do
  let (effective, superseded) ← effectiveDecisions decisions
  let state ← replay orders (sortedBy replayKey effective) .start
  return snapshot state superseded

end Collector.Contracts
